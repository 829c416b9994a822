import MyShell.FS.Names
import MyShell.FS.Remount
import MyShell.FS.Copy
import MyShell.Lib.Simulation

/-! Sessions on named files. To its user the file system is a map from names to bytes, whatever is created,
removed, written, read, and mounted again. -/
namespace MyShell.FS
open BlockProgram PointerForest Bitmap Simulation

/-- The bytes of the file of each name. -/
abbrev Files := CString → Option (List Byte)

def filesOf (s : Volume) : Files := fun name => (sectorOf s name).map fun x => contents (s.device x) s.device

/-- A write through `filesys_open`, `file_write_at` and `file_close`; `none` if nothing can be opened. -/
def writeNamed (path : CString) (buffer : List Byte) (size offset : Int) : FsM (Option Int) := do
  match ← filesysOpen path with
  | none => pure none
  | some file => do
    let written ← fileWriteAt inodeWriteAt file buffer size offset
    fileClose (some file)
    pure (some written)

def readNamed (path : CString) (size offset : Int) : FsM (Option (List Byte)) := do
  match ← filesysOpen path with
  | none => pure none
  | some file => do
    let bytes ← fileReadAt file size offset
    fileClose (some file)
    pure (some bytes)

inductive StoreOp where
  | create (stale : List Byte) (path : CString) (size : Int)
  | remove (path : CString)
  | write (path : CString) (buffer : List Byte) (size offset : Int)
  | read (path : CString) (size offset : Int)
  | remount

inductive Answer where
  | flag (done : Bool)
  | count (written : Option Int)
  | bytes (read : Option (List Byte))
  | mounted

def StoreOp.exec : StoreOp → FileSys → Answer × FileSys
  | .create stale path size, s =>
    let (done,s) := (filesysCreate stale path size false).exec s
    (.flag done,s)
  | .remove path, s =>
    let (done,s) := (filesysRemove path).exec s
    (.flag done,s)
  | .write path buffer size offset, s =>
    let (written,s) := (writeNamed path buffer size offset).exec s
    (.count written,s)
  | .read path size offset, s =>
    let (found,s) := (readNamed path size offset).exec s
    (.bytes found,s)
  | .remount, s => (.mounted,FS.remount s)

/-- The arguments are those of an `offset_t`, and the paths lead to entries of the root directory. An allocation
that failed may have cost the free map file its inode on the disk, so none has before the disk is mounted again. -/
def StoreOp.Possible (s : FileSys) : StoreOp → Prop
  | .create _ _ size => -2147483648 ≤ size ∧ size < 2147483648
  | .remove path => SlashFree path
  | .write path _ size offset => NamesEntry path ∧ 1 ≤ size ∧ size < 2147483648 ∧ 0 ≤ offset ∧ offset < 2147483648
  | .read path size offset => NamesEntry path ∧ 0 ≤ size ∧ 0 ≤ offset
  | .remount => none ∉ s.vars.allocations

/-- What a map from names to bytes may answer, and the map afterwards. Only a new and proper name is created, and
a write takes place as a whole or not at all. -/
inductive StoreOp.Gives (files : Files) : StoreOp → Answer → Files → Prop
  | created (stale : List Byte) (path : CString) (size : Int) (new : files (lastName path) = none)
      (proper : ProperName (lastName path)) (natural : 0 ≤ size) (small : size ≤ 8517120) :
      Gives files (.create stale path size) (.flag true)
        (Function.update files (lastName path) (some (List.replicate size.toNat 0)))
  | refused (stale : List Byte) (path : CString) (size : Int) : Gives files (.create stale path size) (.flag false) files
  | removed (path : CString) :
      Gives files (.remove path) (.flag (files path).isSome) (Function.update files path none)
  | written (path : CString) (buffer : List Byte) (size offset : Int) (a : List Byte) (known : files (lastName path) = some a) :
      Gives files (.write path buffer size offset) (.count (some size))
        (Function.update files (lastName path) (some (arrayWrite a buffer offset.toNat size.toNat)))
  | unwritten (path : CString) (buffer : List Byte) (size offset : Int) (known : (files (lastName path)).isSome = true) :
      Gives files (.write path buffer size offset) (.count (some 0)) files
  | unknown (path : CString) (buffer : List Byte) (size offset : Int) (missing : files (lastName path) = none) :
      Gives files (.write path buffer size offset) (.count none) files
  | read (path : CString) (size offset : Int) :
      Gives files (.read path size offset)
        (.bytes ((files (lastName path)).map fun a => arrayRead a offset.toNat size.toNat)) files
  | remounted : Gives files .remount .mounted files

/-- The operations of a session with their answers. -/
abbrev StoreRun (s : FileSys) : List (StoreOp × Answer) → FileSys → Prop := Session StoreOp.exec StoreOp.Possible s

/-- The same session with a map from names to bytes. -/
abbrev FilesRun (files : Files) : List (StoreOp × Answer) → Files → Prop := Allows StoreOp.Gives files

section
variable {reserved dirty : Nat → Prop} {s t : Volume} {name other path : CString} {i x : Nat} {a : List Byte}

theorem NamedRoot.findName_iff (named : NamedRoot a) : findName a name = some i ↔ ListedAt a i ∧ nameAt a i = name := by
  constructor
  · intro found
    obtain ⟨listed,same⟩ := findName_listed found
    exact ⟨listed,same.symm⟩
  · rintro ⟨listed,rfl⟩
    exact named.found listed

/-- The entries of other names are where they were. -/
structure SameEntries (s t : Volume) (name : CString) : Prop where
  kept : ∀ i, ListedAt (rootArray s) i → nameAt (rootArray s) i ≠ name →
    ListedAt (rootArray t) i ∧ entryAt (rootArray t) i = entryAt (rootArray s) i
  old : ∀ i, ListedAt (rootArray t) i → nameAt (rootArray t) i ≠ name →
    ListedAt (rootArray s) i ∧ entryAt (rootArray t) i = entryAt (rootArray s) i

theorem SameEntries.sectorOf_eq (same : SameEntries s t name) (named : NamedRoot (rootArray s))
    (named' : NamedRoot (rootArray t)) (ne : other ≠ name) : sectorOf t other = sectorOf s other := by
  unfold sectorOf
  cases found : findName (rootArray s) other with
  | some i =>
    obtain ⟨listed,here⟩ := named.findName_iff.mp found
    obtain ⟨after,entry⟩ := same.kept i listed (here.trans_ne ne)
    have found' : findName (rootArray t) other = some i :=
      named'.findName_iff.mpr ⟨after,(congrArg DirEntry.nameString entry).trans here⟩
    rw [found',Option.map_some,Option.map_some,entry]
  | none =>
    cases found' : findName (rootArray t) other with
    | none => rw [Option.map_none,Option.map_none]
    | some i =>
      obtain ⟨listed,here⟩ := named'.findName_iff.mp found'
      obtain ⟨before,entry⟩ := same.old i listed (here.trans_ne ne)
      have known := named.findName_iff.mpr ⟨before,(congrArg DirEntry.nameString entry).symm.trans here⟩
      exact absurd (found.symm.trans known) (Option.some_ne_none _).symm

/-- A change of one name, of which every other file is spared. -/
theorem SameEntries.filesOf_eq (same : SameEntries s t name) (named : NamedRoot (rootArray s))
    (named' : NamedRoot (rootArray t)) (spared : ∀ i, ListedAt (rootArray s) i → nameAt (rootArray s) i ≠ name →
      contents (t.device (entryAt (rootArray s) i).inodeSector) t.device =
        contents (s.device (entryAt (rootArray s) i).inodeSector) s.device) :
    filesOf t = Function.update (filesOf s) name (filesOf t name) := by
  funext other
  by_cases here : other = name
  · rw [here,Function.update_self]
  · rw [Function.update_of_ne here]
    unfold filesOf
    rw [same.sectorOf_eq named named' here]
    cases found : sectorOf s other with
    | none => rw [Option.map_none,Option.map_none]
    | some x =>
      obtain ⟨i,search,listed,rfl⟩ := listed_of_sectorOf found
      rw [Option.map_some,Option.map_some,
        spared i listed ((named.findName_iff.mp search).2.trans_ne here)]

theorem SameEntries.of_eq (array : rootArray t = rootArray s) : SameEntries s t name := by
  refine ⟨fun i listed _ => ?_,fun i listed _ => ?_⟩
  · rw [array]
    exact ⟨listed,rfl⟩
  · rw [array] at listed ⊢
    exact ⟨listed,rfl⟩

/-- Nothing happened to any file. -/
theorem filesOf_congr (array : rootArray t = rootArray s) (spared : ∀ i, ListedAt (rootArray s) i →
    contents (t.device (entryAt (rootArray s) i).inodeSector) t.device =
      contents (s.device (entryAt (rootArray s) i).inodeSector) s.device) : filesOf t = filesOf s := by
  funext name
  have sector : sectorOf t name = sectorOf s name := by
    unfold sectorOf
    rw [array]
  unfold filesOf
  rw [sector]
  cases found : sectorOf s name with
  | none => rw [Option.map_none,Option.map_none]
  | some x =>
    obtain ⟨i,-,listed,rfl⟩ := listed_of_sectorOf found
    rw [Option.map_some,Option.map_some,spared i listed]

theorem filesOf_isSome (s : Volume) (name : CString) : (filesOf s name).isSome = (findName (rootArray s) name).isSome := by
  unfold filesOf sectorOf
  rw [Option.isSome_map,Option.isSome_map]

theorem Made.small {owner : Nat → Prop} {size : Int} (made : Made reserved dirty owner s t x name size) : x < 4294967296 :=
  (marked_small _ made.ready.packed made.ready.small x (made.layout.marked x (Or.inr rfl))).trans (by decide)

/-- The entries after `filesys_create`: those that were there, and the new one. -/
theorem Made.entries {size : Int} (made : Made reserved dirty (Owns (rootArray s)) s t x name size)
    (root : RootArray (rootArray s)) :
    (∀ k, ListedAt (rootArray s) k → ListedAt (rootArray t) k ∧ entryAt (rootArray t) k = entryAt (rootArray s) k) ∧
      ∀ k, ListedAt (rootArray t) k → entryAt (rootArray t) k = newEntry name x ∨
        ListedAt (rootArray s) k ∧ entryAt (rootArray t) k = entryAt (rootArray s) k := by
  obtain ⟨positive,slot,free⟩ := freeSlot_spec root.self root.used
  have array : rootArray t = arrayWrite (rootArray s) (newEntry name x).bytes (36 * freeSlot (rootArray s)) 36 := made.root
  have stored := newEntry_bytes name x made.small
  refine ⟨fun k listed => ?_,fun k listed => ?_⟩
  · have other : k ≠ freeSlot (rootArray s) := fun same => free (same ▸ listed)
    have after : ListedAt (rootArray t) k := by
      rw [array,listedAt_write slot positive stored,if_neg other]
      exact listed
    refine ⟨after,?_⟩
    rw [array] at after ⊢
    rw [entryAt_listed slot stored after,if_neg other]
  · rw [array] at listed ⊢
    have entry := entryAt_listed slot stored listed
    rw [listedAt_write slot positive stored] at listed
    by_cases here : k = freeSlot (rootArray s)
    · rw [if_pos here] at entry
      exact Or.inl entry
    · rw [if_neg here] at entry listed
      exact Or.inr ⟨listed,entry⟩

theorem Made.sameEntries {size : Int} (made : Made reserved dirty (Owns (rootArray s)) s t x name size)
    (root : RootArray (rootArray s)) (good : ¬BadName (rootArray s) name) : SameEntries s t name := by
  obtain ⟨kept,old⟩ := made.entries root
  refine ⟨fun i listed _ => kept i listed,fun i listed ne => (old i listed).resolve_left fun new => ne ?_⟩
  exact (congrArg DirEntry.nameString new).trans
    (nameString_strncpy name (Nat.le_of_not_lt fun long => good (Or.inr (Or.inl long))))

/-- `filesys_create` that succeeded. -/
theorem Made.filesOf_eq {size : Int} (made : Made reserved dirty (Owns (rootArray s)) s t x name size)
    (root : RootArray (rootArray s))
    (apart : ∀ i, ListedAt (rootArray s) i → (entryAt (rootArray s) i).inodeSector ≠ rootDirSector)
    (named : NamedRoot (rootArray s)) (named' : NamedRoot (rootArray t)) (good : ¬BadName (rootArray s) name) :
    filesOf t = Function.update (filesOf s) name (some (List.replicate size.toNat 0)) := by
  have value : filesOf t name = some (List.replicate size.toNat 0) := by
    unfold filesOf
    rw [made.named root good,Option.map_some,made.zeros]
  rw [(made.sameEntries root good).filesOf_eq named named' fun i listed _ => ?_,value]
  rw [made.inodes _ (owns_listed listed) (apart i listed),made.files _ (owns_listed listed) (apart i listed)]

/-- `filesys_create` that failed. -/
theorem Refused.filesOf_eq {done : Bool} {leaked : Nat}
    (refused : Refused reserved dirty (Owns (rootArray s)) s t done leaked) : filesOf t = filesOf s := by
  refine filesOf_congr (refused.rootArray_eq owns_root) fun i listed => ?_
  rw [refused.kept.inodes _ (owns_listed listed),refused.kept.files _ (owns_listed listed)]

/-- The entries after `filesys_remove`: those that were there but for the one that went. -/
theorem Removed.entries {k : Nat} (removed : Removed reserved dirty (Owns (rootArray s)) s t i x)
    (listed : ListedAt (rootArray s) i) : ListedAt (rootArray t) k ↔ k ≠ i ∧ ListedAt (rootArray s) k := by
  have array : rootArray t = arrayWrite (rootArray s) (erasedEntry (rootArray s) i).bytes (36*i) 36 := removed.root
  rw [array,listedAt_write (Nat.le_of_lt listed.inside) listed.positive (erasedEntry_bytes _ i listed.inside)]
  split
  · rename_i here
    exact ⟨fun contrary => absurd contrary Bool.false_ne_true,fun both => absurd here both.1⟩
  · rename_i other
    exact ⟨fun before => ⟨other,before⟩,And.right⟩

theorem Removed.entryAt_eq {k : Nat} (removed : Removed reserved dirty (Owns (rootArray s)) s t i x)
    (listed : ListedAt (rootArray s) i) (after : ListedAt (rootArray t) k) :
    entryAt (rootArray t) k = entryAt (rootArray s) k := by
  have array : rootArray t = arrayWrite (rootArray s) (erasedEntry (rootArray s) i).bytes (36*i) 36 := removed.root
  have other := ((removed.entries listed).mp after).1
  rw [array] at after ⊢
  rw [entryAt_listed (Nat.le_of_lt listed.inside) (erasedEntry_bytes _ i listed.inside) after,if_neg other]

theorem Removed.sameEntries (removed : Removed reserved dirty (Owns (rootArray s)) s t i x)
    (listed : ListedAt (rootArray s) i) : SameEntries s t (nameAt (rootArray s) i) := by
  refine ⟨fun k before ne => ?_,fun k after _ => ⟨((removed.entries listed).mp after).2,removed.entryAt_eq listed after⟩⟩
  have after := (removed.entries listed).mpr ⟨fun same => ne (same ▸ rfl),before⟩
  exact ⟨after,removed.entryAt_eq listed after⟩

/-- `filesys_remove` that found the name. -/
theorem Removed.filesOf_eq (removed : Removed reserved dirty (Owns (rootArray s)) s t i (entryAt (rootArray s) i).inodeSector)
    (root : RootArray (rootArray s))
    (apart : ∀ i, ListedAt (rootArray s) i → (entryAt (rootArray s) i).inodeSector ≠ rootDirSector)
    (named : NamedRoot (rootArray s)) (named' : NamedRoot (rootArray t)) (listed : ListedAt (rootArray s) i) :
    filesOf t = Function.update (filesOf s) (nameAt (rootArray s) i) none := by
  have missing : filesOf t (nameAt (rootArray s) i) = none := by
    unfold filesOf sectorOf
    cases found : findName (rootArray t) (nameAt (rootArray s) i) with
    | none => rw [Option.map_none,Option.map_none]
    | some k =>
      obtain ⟨after,same⟩ := named'.findName_iff.mp found
      obtain ⟨other,before⟩ := (removed.entries listed).mp after
      have entry := congrArg DirEntry.nameString (removed.entryAt_eq listed after)
      exact absurd (named.distinct k i before listed (entry.symm.trans same)) other
  rw [(removed.sameEntries listed).filesOf_eq named named' fun k before ne => ?_,missing]
  have owns := owns_listed before
  have other : (entryAt (rootArray s) k).inodeSector ≠ (entryAt (rootArray s) i).inodeSector := fun same =>
    ne (root.distinct k i before listed same ▸ rfl)
  rw [removed.inodes _ owns other,removed.files _ owns other (apart k before)]

/-- A write to a listed file, whether it was complete or not. -/
theorem Stored.filesOf_eq {buffer : List Byte} {ofs n : Nat} {done : Bool}
    (stored : Stored reserved dirty (Owns (rootArray s)) s t (entryAt (rootArray s) i).inodeSector buffer ofs n done)
    (root : RootArray (rootArray s))
    (apart : ∀ i, ListedAt (rootArray s) i → (entryAt (rootArray s) i).inodeSector ≠ rootDirSector)
    (named : NamedRoot (rootArray s)) (listed : ListedAt (rootArray s) i) :
    filesOf t = if done = true ∧ ofs + n ≤ 8517120 then
        Function.update (filesOf s) (nameAt (rootArray s) i) (some (arrayWrite
          (contents (s.device (entryAt (rootArray s) i).inodeSector) s.device) buffer ofs n))
      else filesOf s := by
  have array := stored.rootArray_eq owns_root (apart i listed)
  have others (k : Nat) (before : ListedAt (rootArray s) k)
      (other : (entryAt (rootArray s) k).inodeSector ≠ (entryAt (rootArray s) i).inodeSector) :
      contents (t.device (entryAt (rootArray s) k).inodeSector) t.device =
        contents (s.device (entryAt (rootArray s) k).inodeSector) s.device := by
    rw [stored.inodes _ (owns_listed before) other,stored.files _ (owns_listed before) other]
  by_cases whole : done = true ∧ ofs + n ≤ 8517120
  · have entries : SameEntries s t (nameAt (rootArray s) i) := .of_eq array
    rw [if_pos whole,entries.filesOf_eq named (array.symm ▸ named) fun k before ne => ?_]
    · have found : sectorOf t (nameAt (rootArray s) i) = some (entryAt (rootArray s) i).inodeSector := by
        unfold sectorOf
        rw [array,named.found listed,Option.map_some]
      have value : filesOf t (nameAt (rootArray s) i) = some (arrayWrite
          (contents (s.device (entryAt (rootArray s) i).inodeSector) s.device) buffer ofs n) := by
        unfold filesOf
        rw [found,Option.map_some,stored.written whole.1 whole.2]
      rw [value]
    · exact others k before fun same => ne (root.distinct k i before listed same ▸ rfl)
  · rw [if_neg whole]
    refine filesOf_congr array fun k before => ?_
    by_cases same : (entryAt (rootArray s) k).inodeSector = (entryAt (rootArray s) i).inodeSector
    · have stopped : done = false ∨ 8517120 < ofs + n := by
        rw [not_and_or,Bool.not_eq_true,Nat.not_le] at whole
        exact whole
      obtain ⟨inode,bytes⟩ := stored.failed stopped
      rw [same,inode,bytes]
    · exact others k before same

/-- The free map file keeps its cell in the table of open files. -/
theorem Idle.held {h : Handles} (idle : Idle h) (g : Nat) (pointer : h.freeMapFile = some g) :
    ∃ c, h.files.cell g = some c := by
  obtain ⟨f,p,c,opened⟩ := idle.mapped
  obtain rfl : f = g := Option.some.inj (opened.pointer.symm.trans pointer)
  exact ⟨_,opened.held⟩

/-- `file_write_at` to a file that was just opened. -/
theorem NewFile.writeAt {h : Handles} {f p : Nat} (new : NewFile s.vars.handles h f p x (s.device x) 0)
    (mounted : Mounted reserved dirty s) (owns : Owns (rootArray s) x) (buffer : List Byte) (ofs n : Nat) (positive : 0 < n)
    (first : ofs < 2147483648) (second : n < 2147483648) :
    ∃ done v, (fileWriteAt inodeWriteAt f buffer n ofs).exec (withHandles s h) =
        (if done = true ∧ ofs + n ≤ 8517120 then (n : Int) else 0,v) ∧
      (∃ d, NewFile s.vars.handles v.vars.handles f p x d 0) ∧
      ∀ h', s.vars.handles.Same h' →
        Stored reserved dirty (Owns (rootArray s)) s (withHandles v h') x buffer ofs n done := by
  have holds := new.holds mounted.idle.live mounted.idle.held
  have layout := mounted.layout.congr (t := withHandles s h) rfl rfl
  have opened := (new.ready mounted.idle.live mounted.idle.held mounted.ready).1 rfl
  have file : h.file f = ⟨p,0,false⟩ := ObjectHeap.deref_of_cell _ _ _ new.cell
  obtain ⟨write,isWrite,steps⟩ := inodeWriteAt_step (withHandles s h)
  have start := steps p buffer n ofs
  have call : (fileWriteAt FS.inodeWriteAt f buffer n ofs).exec (withHandles s h) =
      (FS.inodeWriteAt p buffer n ofs).exec (withHandles s h) := by
    unfold fileWriteAt
    rw [Task.exec_bind,exec_getHandles]
    dsimp only [withHandles]
    rw [file]
  by_cases bound : ofs + n < 2147483648
  · obtain ⟨done,v,d,run,outcome⟩ := writeStep_spec isWrite layout opened mounted.origin owns holds buffer ofs n positive bound
    have worked : NewFile s.vars.handles v.vars.handles f p x d 0 := by
      rw [outcome.handles]
      exact new.setData d
    refine ⟨done,v,call.trans (start.trans run),⟨d,worked⟩,fun h' same => outcome.stored h' ?_⟩
    exact (worked.ready mounted.idle.live mounted.idle.held outcome.ready).2 h' rfl same
  · have run := writeStep_overflow write layout owns holds buffer ofs n first second (Nat.le_of_not_lt bound)
    refine ⟨true,withHandles s h,?_,⟨_,new⟩,fun h' same => ?_⟩
    · rw [call,start,run,if_neg (by omega)]
    · exact Stored.unchanged mounted.layout _ ((new.ready mounted.idle.live mounted.idle.held opened).2 h' rfl same)
        (Nat.le_of_not_lt bound)

/-- What `filesys_open` makes of a path to an entry. -/
theorem Mounted.opens (mounted : Mounted reserved dirty s) (names : NamesEntry path) :
    (∃ h, findName (rootArray s) (lastName path) = none ∧ (filesysOpen path).exec s = (none,withHandles s h) ∧
        s.vars.handles.Same h) ∨
      ∃ i f p h, findName (rootArray s) (lastName path) = some i ∧ (filesysOpen path).exec s = (some f,withHandles s h) ∧
        NewFile s.vars.handles h f p (entryAt (rootArray s) i).inodeSector
          (s.device (entryAt (rootArray s) i).inodeSector) 0 := by
  have opening := filesysOpen_new mounted.layout owns_root rfl mounted.idle.unset mounted.idle.closed.absent names
  cases found : findName (rootArray s) (lastName path) with
  | none =>
    rw [found] at opening
    obtain ⟨h,run,same⟩ := opening
    exact Or.inl ⟨h,rfl,run,same⟩
  | some i =>
    rw [found] at opening
    have listed := (findName_listed found).1
    obtain ⟨f,p,h,run,new⟩ := opening (mounted.apart i listed) (mounted.listed listed).closed
    exact Or.inr ⟨i,f,p,h,rfl,run,new⟩

theorem Mounted.rehandle {h : Handles} (mounted : Mounted reserved dirty s) (same : s.vars.handles.Same h)
    (ready : Ready reserved dirty (withHandles s h)) : Mounted reserved dirty (withHandles s h) :=
  mounted.keep same rfl (mounted.layout.congr rfl rfl) ready fun _ _ => rfl

/-- What an operation leaves: a mounted file system, further in its history, whose files are those of the map. -/
structure Performed (reserved dirty : Nat → Prop) (s t : Volume) (op : StoreOp) (answer : Answer) : Prop where
  mounted : Mounted reserved dirty t
  advance : Advance s t
  named : NamedRoot (rootArray t)
  gives : op.Gives (filesOf s) answer (filesOf t)

theorem Mounted.performsCreate (mounted : Mounted reserved dirty s) (named : NamedRoot (rootArray s)) (stale : List Byte)
    (path : CString) (size : Int) (low : -2147483648 ≤ size) (high : size < 2147483648) :
    ∃ done t, (filesysCreate stale path size false).exec s = (done,t) ∧
      Performed reserved dirty s t (.create stale path size) (.flag done) := by
  obtain ⟨t,same,outcome⟩ := filesysCreate_spec mounted.layout mounted.ready mounted.origin owns_root mounted.idle.closed
    stale path low high
  have after := mounted.step_named named (.create stale path size) ⟨low,high⟩
  unfold FileOp.task at after
  rw [Task.exec_bind,Task.exec_pure] at after
  cases leak : leakAt s (splitPathFilename path).2 size with
  | some leaked =>
    rw [leak] at outcome
    obtain ⟨run,done,refused⟩ := outcome
    rw [run] at after
    refine ⟨false,t,run,(mounted.refused same refused).1,.refused mounted same refused,after,?_⟩
    rw [refused.filesOf_eq]
    exact .refused stale path size
  | none =>
    rw [leak] at outcome
    obtain ⟨run,x,made⟩ := outcome
    rw [run] at after
    have good : ¬BadName (rootArray s) (lastName path) := leakAt_good leak
    have natural := (createLeak_good _ leak).1
    have limit := made.layout.limit x (Or.inr rfl)
    rw [made.length] at limit
    have missing : findName (rootArray s) (lastName path) = none :=
      Option.not_isSome_iff_eq_none.mp fun known => good (Or.inr (Or.inr known))
    have new : filesOf s (lastName path) = none := by
      rw [← Option.not_isSome_iff_eq_none,filesOf_isSome,missing]
      exact Bool.false_ne_true
    have proper : ProperName (lastName path) :=
      ⟨Nat.pos_of_ne_zero fun empty => good (Or.inl empty),Nat.le_of_not_lt fun long => good (Or.inr (Or.inl long)),
        slashFree_lastName path⟩
    refine ⟨true,t,run,(mounted.made same made).1,.made mounted same made,after,?_⟩
    rw [made.filesOf_eq mounted.root mounted.apart named after good]
    exact .created stale path size new proper natural limit

theorem Mounted.performsRemove (mounted : Mounted reserved dirty s) (named : NamedRoot (rootArray s)) (plain : SlashFree path) :
    ∃ done t, (filesysRemove path).exec s = (done,t) ∧ Performed reserved dirty s t (.remove path) (.flag done) := by
  obtain ⟨found,t,run,mounted',advance⟩ := mounted.remove path plain
  have after := mounted.step_named named (.remove path) plain
  unfold FileOp.task at after
  rw [Task.exec_bind,Task.exec_pure,run] at after
  refine ⟨found,t,run,mounted',advance,after,?_⟩
  obtain ⟨v,same,outcome⟩ := filesysRemove_spec mounted.layout mounted.ready mounted.origin owns_root mounted.idle.closed
    path plain fun i listed => mounted.listed listed
  have array : contents (s.device rootDirSector) s.device = rootArray s := rfl
  have gives : StoreOp.Gives (filesOf s) (.remove path) (.flag (filesOf s path).isSome) (Function.update (filesOf s) path none) :=
    .removed path
  rw [array] at outcome
  rw [filesOf_isSome] at gives
  cases search : findName (rootArray s) path with
  | none =>
    rw [search] at outcome gives
    obtain ⟨run',unchanged,-⟩ := outcome
    obtain ⟨rfl,rfl⟩ := Prod.mk.inj (run.symm.trans run')
    have missing : filesOf s path = none := by
      rw [← Option.not_isSome_iff_eq_none,filesOf_isSome,search]
      exact Bool.false_ne_true
    have files : filesOf t = Function.update (filesOf s) path none := by
      rw [unchanged,← missing,Function.update_eq_self]
      rfl
    rw [files]
    exact gives
  | some i =>
    rw [search] at outcome gives
    obtain ⟨run',removed⟩ := outcome
    obtain ⟨rfl,rfl⟩ := Prod.mk.inj (run.symm.trans run')
    obtain ⟨listed,here⟩ := named.findName_iff.mp search
    rw [removed.filesOf_eq mounted.root mounted.apart named after listed,here]
    exact gives

/-- The bytes of the file that a path leads to. -/
theorem filesOf_found (found : findName (rootArray s) name = some i) :
    filesOf s name = some (contents (s.device (entryAt (rootArray s) i).inodeSector) s.device) := by
  unfold filesOf sectorOf
  rw [found,Option.map_some,Option.map_some]

theorem filesOf_missing (missing : findName (rootArray s) name = none) : filesOf s name = none := by
  rw [← Option.not_isSome_iff_eq_none,filesOf_isSome,missing]
  exact Bool.false_ne_true

theorem Mounted.performsWrite (mounted : Mounted reserved dirty s) (named : NamedRoot (rootArray s))
    (names : NamesEntry path) (buffer : List Byte) (ofs n : Nat) (positive : 0 < n) (first : ofs < 2147483648)
    (second : n < 2147483648) :
    ∃ written t, (writeNamed path buffer n ofs).exec s = (written,t) ∧
      Performed reserved dirty s t (.write path buffer n ofs) (.count written) := by
  rcases mounted.opens names with ⟨h,missing,run,same⟩ | ⟨i,f,p,h,found,run,new⟩
  · refine ⟨none,withHandles s h,?_,mounted.rehandle same ?_,.rehandle same,named,.unknown _ _ _ _ (filesOf_missing missing)⟩
    · unfold writeNamed
      rw [Task.exec_bind,run]
      rfl
    · exact mounted.ready.rehandle same.freeMapFile fun f pointer => by rw [same.inode_eq,same.file_eq]
  · have listed := (findName_listed found).1
    obtain ⟨done,v,wrote,⟨d,worked⟩,stored⟩ := new.writeAt mounted (owns_listed listed) buffer ofs n positive first second
    obtain ⟨h',closing,same⟩ := worked.close (s := v) rfl
    have stored := stored h' same
    obtain ⟨after,array⟩ := mounted.stored same (mounted.apart i listed) stored
    have files := stored.filesOf_eq mounted.root mounted.apart named listed
    have here := (named.findName_iff.mp found).2
    refine ⟨some (if done = true ∧ ofs + n ≤ 8517120 then (n : Int) else 0),withHandles v h',?_,after,.stored mounted same stored,array.symm ▸ named,?_⟩
    · unfold writeNamed
      rw [Task.exec_bind,run]
      dsimp only
      rw [Task.exec_bind,wrote]
      dsimp only
      rw [Task.exec_bind,closing,Task.exec_pure]
    · rw [files,here]
      by_cases whole : done = true ∧ ofs + n ≤ 8517120
      · rw [if_pos whole,if_pos whole]
        exact .written path buffer n ofs _ (filesOf_found found)
      · rw [if_neg whole,if_neg whole]
        exact .unwritten path buffer n ofs (by rw [filesOf_found found]; rfl)

theorem Mounted.performsRead (mounted : Mounted reserved dirty s) (named : NamedRoot (rootArray s))
    (names : NamesEntry path) (ofs n : Nat) :
    ∃ bytes t, (readNamed path n ofs).exec s = (bytes,t) ∧
      Performed reserved dirty s t (.read path n ofs) (.bytes bytes) := by
  have gives : StoreOp.Gives (filesOf s) (.read path n ofs)
      (.bytes ((filesOf s (lastName path)).map fun a => arrayRead a (ofs : Int).toNat (n : Int).toNat)) (filesOf s) :=
    .read path n ofs
  rw [Int.toNat_natCast,Int.toNat_natCast] at gives
  rcases mounted.opens names with ⟨h,missing,run,same⟩ | ⟨i,f,p,h,found,run,new⟩
  · rw [filesOf_missing missing,Option.map_none] at gives
    refine ⟨none,withHandles s h,?_,mounted.rehandle same ?_,.rehandle same,named,gives⟩
    · unfold readNamed
      rw [Task.exec_bind,run]
      rfl
    · exact mounted.ready.rehandle same.freeMapFile fun f pointer => by rw [same.inode_eq,same.file_eq]
  · have listed := (findName_listed found).1
    have owns := owns_listed listed
    have holds := new.holds mounted.idle.live mounted.idle.held
    have reading := inodeReadAt_spec (mounted.layout.congr (t := withHandles s h) rfl rfl) owns p
      (by rw [holds.inode_eq,holds.data]) n ofs
    obtain ⟨h',closing,same⟩ := new.close (s := withHandles s h) rfl
    have file : h.file f = ⟨p,0,false⟩ := ObjectHeap.deref_of_cell _ _ _ new.cell
    have call : (fileReadAt f n ofs).exec (withHandles s h) = (inodeReadAt p n ofs).exec (withHandles s h) := by
      unfold fileReadAt
      rw [Task.exec_bind,exec_getHandles]
      dsimp only [withHandles]
      rw [file]
    rw [filesOf_found found,Option.map_some] at gives
    have opened := (new.ready mounted.idle.live mounted.idle.held mounted.ready).1 rfl
    refine ⟨_,withHandles s h',?_,mounted.rehandle same ?_,.rehandle same,named,gives⟩
    · unfold readNamed
      rw [Task.exec_bind,run]
      dsimp only
      rw [Task.exec_bind,call,reading]
      dsimp only
      rw [Task.exec_bind,closing,Task.exec_pure]
      rfl
    · exact (new.ready mounted.idle.live mounted.idle.held opened).2 h' rfl same

end

section
variable {reserved dirty : Nat → Prop} {s t : FileSys}

theorem Sane.advanced {α : Type} (sane : Sane reserved dirty s) (task : FsM α)
    (mounted : Mounted reserved dirty (volume (task.exec s).2)) (advance : Advance (volume s) (volume (task.exec s).2)) :
    Sane reserved dirty (task.exec s).2 := by
  refine ⟨mounted,?_,fun whole => advance.persisted whole sane.persisted,advance.panics.trans sane.panics⟩
  rw [exec_deviceSize]
  exact advance.size.trans sane.size

theorem Sane.remounted (sane : Sane reserved dirty s) (whole : none ∉ s.vars.allocations) :
    Sane reserved dirty (remount s) ∧ (volume (remount s)).device = (volume s).device := by
  obtain ⟨device,bits,panics,mounted,persisted⟩ := remount_spec s sane.mounted (sane.persisted whole) sane.size
  have size : deviceSize (remount s) = deviceSize s :=
    (filesysInit_deviceSize false (filesysDone s)).trans (filesysDone_spec s sane.mounted).2.1
  refine ⟨⟨mounted,?_,fun _ => persisted,panics.trans sane.panics⟩,device⟩
  rw [bits,size]
  exact sane.size

/-- What holds between the operations of a session. -/
structure StoreKept (reserved dirty : Nat → Prop) (s : FileSys) : Prop where
  sane : Sane reserved dirty s
  named : NamedRoot (rootArray (volume s))

theorem StoreKept.performed {α : Type} (kept : StoreKept reserved dirty s) (task : FsM α) (op : StoreOp) (answer : α → Answer)
    (exec : op.exec s = (answer (task.exec s).1,(task.exec s).2))
    (performs : ∃ result t, task.exec (volume s) = (result,t) ∧
      Performed reserved dirty (volume s) t op (answer result)) :
    StoreKept reserved dirty (op.exec s).2 ∧
      op.Gives (filesOf (volume s)) (op.exec s).1 (filesOf (volume (op.exec s).2)) := by
  obtain ⟨result,t,run,performed⟩ := performs
  rw [exec_volume] at run
  obtain ⟨rfl,rfl⟩ := Prod.mk.inj run
  rw [exec]
  exact ⟨⟨kept.sane.advanced task performed.mounted performed.advance,performed.named⟩,performed.gives⟩

/-- The step lemma: an operation answers as the map does, and leaves the files of the map. -/
theorem StoreKept.step (kept : StoreKept reserved dirty s) (op : StoreOp) (possible : op.Possible s) :
    StoreKept reserved dirty (op.exec s).2 ∧
      op.Gives (filesOf (volume s)) (op.exec s).1 (filesOf (volume (op.exec s).2)) := by
  have mounted := kept.sane.mounted
  cases op with
  | create stale path size =>
    exact kept.performed _ _ _ rfl (mounted.performsCreate kept.named stale path size possible.1 possible.2)
  | remove path => exact kept.performed _ _ _ rfl (mounted.performsRemove kept.named possible)
  | write path buffer size offset =>
    obtain ⟨names,positive,second,low,first⟩ := possible
    obtain ⟨n,rfl⟩ := Int.eq_ofNat_of_zero_le (by omega : 0 ≤ size)
    obtain ⟨ofs,rfl⟩ := Int.eq_ofNat_of_zero_le low
    exact kept.performed _ _ _ rfl
      (mounted.performsWrite kept.named names buffer ofs n (by omega) (by omega) (by omega))
  | read path size offset =>
    obtain ⟨names,natural,low⟩ := possible
    obtain ⟨n,rfl⟩ := Int.eq_ofNat_of_zero_le natural
    obtain ⟨ofs,rfl⟩ := Int.eq_ofNat_of_zero_le low
    exact kept.performed _ _ _ rfl (mounted.performsRead kept.named names ofs n)
  | remount =>
    obtain ⟨sane,device⟩ := kept.sane.remounted possible
    have array : rootArray (volume (remount s)) = rootArray (volume s) := by
      unfold rootArray
      rw [device]
    have files : filesOf (volume (remount s)) = filesOf (volume s) := filesOf_congr array fun _ _ => by rw [device]
    refine ⟨⟨sane,array.symm ▸ kept.named⟩,?_⟩
    change StoreOp.Gives (filesOf (volume s)) .remount .mounted (filesOf (volume (remount s)))
    rw [files]
    exact .remounted

theorem store_refines (reserved dirty : Nat → Prop) :
    Refines StoreOp.exec StoreOp.Possible StoreOp.Gives (StoreKept reserved dirty) fun s => filesOf (volume s) where
  keeps _ op kept possible := (kept.step op possible).1
  gives _ op kept possible := (kept.step op possible).2

theorem formatted_storeKept (c : CacheStore) (fits : Formattable c.cache.fsDevice.size) :
    ∃ reserved dirty, StoreKept reserved dirty (formatted c) ∧ filesOf (volume (formatted c)) = fun _ => none := by
  obtain ⟨reserved,dirty,sane⟩ := formatted_sane c fits
  obtain ⟨_,_,made⟩ := formatted_spec c fits
  have array : rootArray (volume (formatted c)) = newRoot := made.array
  refine ⟨reserved,dirty,⟨sane,formatted_named c fits .start⟩,?_⟩
  funext name
  refine filesOf_missing ?_
  rw [array]
  cases found : findName newRoot name with
  | none => rfl
  | some i => exact absurd (findName_listed found).1 (newRoot_unlisted i)

theorem nameA_names : NamesEntry nameA := ⟨by decide,by decide,by decide,by decide⟩

theorem nameA_plain : SlashFree nameA := by decide

end
end MyShell.FS
