import MyShell.FS.FirstFit
import MyShell.FS.Mounted

/-! `dir_create` on a sector that belongs to no file, and opening the new directory. -/
namespace MyShell.FS
open BlockProgram PointerForest Bitmap

/-- The first entry of a new directory. -/
def parentEntry (sector : Nat) : DirEntry := {inodeSector := sector, name := List.replicate 31 0, inUse := true}

/-- `dir_open(inode_open(sector))`. -/
def openDirectory (sector : Nat) : FsM (Option Nat) := do
  let inode ← inodeOpen sector
  dirOpen (some inode)

/-- The inode of the sector `x` and a directory on it, opened. -/
def Handles.openDirectory (h : Handles) (x : Nat) (data : Sector) : Handles :=
  {h.openInode x data with dirs := h.dirs.alloc {inode := h.inodes.next, pos := sizeofDirEntry, openCnt := 1}}

section
variable {reserved dirty owner : Nat → Prop} {s t : Volume} {x : Nat}

theorem exec_openDirectory (s : Volume) (absent : s.vars.handles.Unopened x) :
    (openDirectory x).exec s =
      (some s.vars.handles.dirs.next,withHandles s (s.vars.handles.openDirectory x (s.device x))) := by
  unfold openDirectory
  rw [Task.exec_bind,exec_inodeOpen_new s x absent]
  rfl

/-- Opening a directory, writing to it and closing it only forgets the working directory. -/
theorem openDirectory_same (h : Handles) (data d : Sector) :
    ({h with cwd := none} : Handles).Same
      (((h.openDirectory x data).setData h.inodes.next d).closeDir h.dirs.next) := by
  have dir : ((h.openDirectory x data).setData h.inodes.next d).dir h.dirs.next =
      {inode := h.inodes.next, pos := sizeofDirEntry, openCnt := 1} :=
    ObjectHeap.deref_of_cell _ _ _ (ObjectHeap.alloc_cell_next _ _)
  unfold Handles.closeDir Handles.closeInode
  rw [dir]
  refine ⟨?_,List.erase_cons_head _ _,rfl,?_,rfl,rfl,rfl⟩
  · exact (((ObjectHeap.SameBut.alloc _ _).modify _).modify _).free h.inodes.next_cell
  · exact ((ObjectHeap.SameBut.alloc _ _).modify _).free h.dirs.next_cell

theorem Ready.openDirectory (ready : Ready reserved dirty s) (live : Live s.vars.handles) (x : Nat) (data : Sector) :
    Ready reserved dirty (withHandles s (s.vars.handles.openDirectory x data)) :=
  ready.rehandle rfl fun f pointer => ObjectHeap.deref_alloc_of_ne _ _ _ (live.ne_next f pointer)

theorem holds_openDirectory (s : Volume) (live : Live s.vars.handles) (x : Nat) :
    Holds s.device (withHandles s (s.vars.handles.openDirectory x (s.device x))) s.vars.handles.inodes.next x
      (readInode x (s.device x)) :=
  ⟨ObjectHeap.alloc_cell_next _ _,rfl,rfl,rfl,fun f pointer => live.ne_next f pointer⟩

/-- What `dir_create` leaves when it succeeds. The first 36 bytes of the new file, of
`length` zeros, are the entry of the parent. -/
structure NewDirectory (reserved dirty owner : Nat → Prop) (s t : Volume) (x : Nat) (length : Int) : Prop where
  same : ({s.vars.handles with cwd := none} : Handles).Same t.vars.handles
  layout : Layout reserved (fun z => owner z ∨ z = x) t.device t
  ready : Ready reserved dirty t
  system : ∀ y, reserved y → ¬dirty y → t.device y = s.device y
  inodes : ∀ z, owner z → t.device z = s.device z
  array : contents (t.device x) t.device = arrayWrite (List.replicate length.toNat 0) (parentEntry x).bytes 0 36
  marks : Marks s t true
  count : 36 ≤ length → t.vars.freeMap.clearCount + blocksFor length = s.vars.freeMap.clearCount

/-- The first entry is written to the new inode, and the inode closed again. -/
theorem parentEntry_spec (layout : Layout reserved owner s.device s) (ready : Ready reserved dirty s)
    (origin : reserved 0) (owns : owner x) (live : Live s.vars.handles) :
    ∃ done t d, (inodeWriteAt s.vars.handles.inodes.next (parentEntry x).bytes sizeofDirEntry 0).exec
          (withHandles s (s.vars.handles.openDirectory x (s.device x))) = (if done = true then 36 else 0,t) ∧
      WriteOutcome reserved dirty owner s.device (withHandles s (s.vars.handles.openDirectory x (s.device x))) t
        s.vars.handles.inodes.next x (parentEntry x).bytes 0 36 done d ∧
      ∃ h, (dirClose (some s.vars.handles.dirs.next)).exec t = ((),withHandles t h) ∧
        ({s.vars.handles with cwd := none} : Handles).Same h ∧ Ready reserved dirty (withHandles t h) := by
  have holds := holds_openDirectory s live x
  obtain ⟨write,isWrite,steps⟩ := inodeWriteAt_step (withHandles s (s.vars.handles.openDirectory x (s.device x)))
  obtain ⟨done,t,d,run,outcome⟩ := writeStep_spec isWrite (layout.congr (t := withHandles s
    (s.vars.handles.openDirectory x (s.device x))) rfl rfl) (ready.openDirectory live x _) origin owns holds
    (parentEntry x).bytes 0 36 (by decide) (by decide)
  have same := openDirectory_same (x := x) s.vars.handles (s.device x) d
  have handles : t.vars.handles =
    (s.vars.handles.openDirectory x (s.device x)).setData s.vars.handles.inodes.next d := outcome.handles
  rw [← handles] at same
  have dir : t.vars.handles.dirs.cell s.vars.handles.dirs.next = some ⟨s.vars.handles.inodes.next,sizeofDirEntry,1⟩ := by
    rw [handles]
    exact ObjectHeap.alloc_cell_next _ _
  have inode : t.vars.handles.inodes.cell s.vars.handles.inodes.next = some (readInode x d) := by
    rw [handles]
    refine (ObjectHeap.modify_cell _ _ _ _).trans ((if_pos rfl).trans ?_)
    exact congrArg (Option.map fun i => {i with data := d}) holds.cell
  refine ⟨done,t,d,?_,outcome,_,exec_dirClose_last dir rfl inode rfl rfl,same,outcome.ready.rehandle ?_ fun f pointer => ?_⟩
  · have fits : (done = true ∧ 0 + 36 ≤ 8517120) = (done = true) := and_iff_left (by decide) |> propext
    simp only [fits] at run
    exact (steps _ _ _ _).trans run
  · rw [same.freeMapFile,handles]
    rfl
  · have pointer' : s.vars.handles.freeMapFile = some f := by
      rw [handles] at pointer
      exact pointer
    rw [same.inode_eq,same.file_eq,handles]
    have apart := live.ne_next f pointer'
    exact ((ObjectHeap.deref_modify_of_ne _ _ _ _ apart).trans (ObjectHeap.deref_alloc_of_ne _ _ _ apart)).symm

theorem exec_dirCreate_failed {entryCnt : Nat}
    (create : (inodeCreate x (i32 (entryCnt * sizeofDirEntry)) true).exec s = (false,t)) :
    (dirCreate x entryCnt).exec s = (false,t) := by
  unfold dirCreate
  rw [Task.exec_bind,create]
  rfl

theorem exec_dirCreate {entryCnt : Nat} {u v : Volume} {written : Int}
    (create : (inodeCreate x (i32 (entryCnt * sizeofDirEntry)) true).exec s = (true,t)) (absent : t.vars.handles.Unopened x)
    (writing : (inodeWriteAt t.vars.handles.inodes.next (parentEntry x).bytes sizeofDirEntry 0).exec
      (withHandles t (t.vars.handles.openDirectory x (t.device x))) = (written,u))
    (closing : (dirClose (some t.vars.handles.dirs.next)).exec u = ((),v)) :
    (dirCreate x entryCnt).exec s = (written == sizeofDirEntry,v) := by
  have directory : (dirOpen (some t.vars.handles.inodes.next)).exec
      (withHandles t (t.vars.handles.openInode x (t.device x))) =
      (some t.vars.handles.dirs.next,withHandles t (t.vars.handles.openDirectory x (t.device x))) := rfl
  have opening := exec_inodeOpen_new t x absent
  change _ = (_,withHandles t (t.vars.handles.openInode x (t.device x))) at opening
  unfold parentEntry at writing
  unfold dirCreate
  rw [Task.exec_bind,create]
  simp only [if_true]
  rw [Task.exec_bind,opening]
  simp only
  rw [Task.exec_bind,directory]
  simp only
  rw [Task.exec_bind,writing]
  simp only
  rw [Task.exec_bind,closing]
  rfl

/-- `dir_create` on a sector that was handed out and is not open. -/
theorem dirCreate_made (layout : Layout reserved owner s.device s) (ready : Ready reserved dirty s)
    (origin : reserved 0) (unowned : Unowned reserved owner s.device s x)
    (marked : bitmapTest s.vars.freeMap x = true) (absent : s.vars.handles.Unopened x) (live : Live s.vars.handles)
    (entryCnt : Nat) :
    ∃ done t, (dirCreate x entryCnt).exec s = (done,t) ∧
      (done = true → NewDirectory reserved dirty owner s t x (i32 (entryCnt * sizeofDirEntry))) ∧
      (36 ≤ i32 (entryCnt * sizeofDirEntry) → i32 (entryCnt * sizeofDirEntry) ≤ 8517120 →
        blocksFor (i32 (entryCnt * sizeofDirEntry)) ≤ s.vars.freeMap.clearCount → done = true) ∧
      (done = true → 36 ≤ i32 (entryCnt * sizeofDirEntry) → ∃ u,
        (inodeCreate x (i32 (entryCnt * sizeofDirEntry)) true).exec s = (true,u) ∧ Marks u t true ∧
        t.vars.freeMap.clearCount = u.vars.freeMap.clearCount) := by
  have bounds := i32_bounds (entryCnt * sizeofDirEntry)
  generalize length : i32 (entryCnt * sizeofDirEntry) = n at bounds
  rcases Int.lt_or_le n 0 with negative | natural
  · refine ⟨false,s,exec_dirCreate_failed (length ▸ inodeCreate_negative x n true negative bounds.1 s),
      fun made => absurd made Bool.false_ne_true,fun _ => by omega,fun made => absurd made Bool.false_ne_true⟩
  · obtain ⟨done,u,create,outcome⟩ := inodeCreate_spec layout ready origin unowned marked n true natural bounds.2
    have handles := outcome.allocated.handles
    by_cases fits : done = true ∧ n ≤ 8517120
    · obtain ⟨d,size,-,-,disk,wide,zeros⟩ := outcome.made fits.1 fits.2
      rw [decide_eq_true fits.2,fits.1] at create
      have after : Layout reserved (fun z => owner z ∨ z = x) u.device u := by
        refine wide.image fun z inside => ?_
        rcases eq_or_ne z x with rfl | other
        · rw [Function.update_self,disk]
        · rw [Function.update_of_ne other,outcome.aside.inodes z (inside.resolve_right other) other]
      obtain ⟨written,t,d',writing,stored,h,closing,same,last⟩ := parentEntry_spec after outcome.ready origin (Or.inr rfl)
        (handles ▸ live)
      have enough (long : 36 ≤ n) : need (u.device x)
          (withHandles u (u.vars.handles.openDirectory x (u.device x))).device (0 + 36) = 0 := by
        unfold need
        rw [disk,size,if_pos (by omega)]
      have full (success : ((if written = true then 36 else 0 : Int) == sizeofDirEntry) = true) : written = true := by
        cases written with
        | true => rfl
        | false => exact absurd success (by decide)
      refine ⟨_,withHandles t h,exec_dirCreate (length ▸ create) (handles ▸ absent) writing closing,fun success => ?_,
        fun long _ _ => ?_,fun success long => ⟨u,create,?_⟩⟩
      · obtain rfl := full success
        obtain ⟨final,bytes,own⟩ := stored.written rfl (by decide)
        refine ⟨handles ▸ same,?_,last,fun y taken clean => ?_,fun z inside => ?_,?_,?_,fun long => ?_⟩
        · refine (final.image fun z inside => ?_).congr rfl rfl
          rcases eq_or_ne z x with rfl | other
          · rw [Function.update_self]
            exact own rfl
          · rw [Function.update_of_ne other]
            exact stored.aside.inodes z inside other
        · exact (stored.aside.system y taken clean (Or.inl rfl)).trans (outcome.aside.system y taken clean (Or.inl fits.1))
        · have other : z ≠ x := fun same => unowned.other (same ▸ inside)
          exact (stored.aside.inodes z (Or.inl inside) other).trans (outcome.aside.inodes z inside other)
        · have image : t.device x = d' := own rfl
          have start : contents (u.device x) u.device = List.replicate n.toNat 0 := by
            rw [disk]
            exact zeros
          exact (congrArg (contents · t.device) image).trans
            (bytes.trans (congrArg (fun a => arrayWrite a (parentEntry x).bytes 0 36) start))
        · have first := fits.1 ▸ outcome.allocated.toMarks
          have second := first.congr (u := withHandles u (u.vars.handles.openDirectory x (u.device x))) rfl rfl rfl
          exact (second.trans stored.marks).congr rfl rfl rfl
        · have first := outcome.allocated.count fits.1
          have second := stored.counts.count rfl
          rw [enough long] at second
          rw [← first]
          exact congrArg (· + blocksFor n) second
      · cases written with
        | true => rfl
        | false =>
          have short := (stored.counts.short rfl).2
          rw [enough long] at short
          exact absurd short (Nat.not_lt_zero _)
      · obtain rfl := full success
        have count := stored.counts.count rfl
        rw [enough long] at count
        obtain ⟨size,mono,log,panics⟩ := stored.marks
        exact ⟨⟨size,mono,log,panics⟩,count⟩
    · have refused : (done && decide (n ≤ 8517120)) = false := by
        rw [Bool.and_eq_false_iff,decide_eq_false_iff_not]
        exact (Decidable.not_and_iff_or_not.mp fits).imp_left (Bool.not_eq_true done).mp
      rw [refused] at create
      refine ⟨false,u,exec_dirCreate_failed (length ▸ create),fun made => absurd made Bool.false_ne_true,
        fun _ small room => ?_,fun made => absurd made Bool.false_ne_true⟩
      cases done with
      | true => exact absurd ⟨rfl,small⟩ fits
      | false => exact absurd (outcome.allocated.short rfl).2 (Nat.not_lt.mpr room)

theorem entryAt_zeros (n i : Nat) : (entryAt (List.replicate n 0) i).inUse = false := by
  have byte := getD_arrayRead (List.replicate n (0 : Byte)) (36*i) 36 35 (by decide)
  unfold entryAt DirEntry.ofBytes
  dsimp only
  rw [byte,List.getD_eq_getElem?_getD,List.getElem?_replicate]
  split <;> rfl

/-- The entries of a new directory of `n` bytes. -/
theorem entryAt_new (n : Nat) (small : x < 4294967296) (i : Nat)
    (inside : i < entryCount (arrayWrite (List.replicate n 0) (parentEntry x).bytes 0 36)) :
    entryAt (arrayWrite (List.replicate n 0) (parentEntry x).bytes 0 36) i =
      if i = 0 then parentEntry x else entryAt (List.replicate n 0) i := by
  have count := entryCount_write (List.replicate n 0) (parentEntry x) 0
  rw [Nat.mul_zero] at count
  have entry := entryAt_write (a := List.replicate n 0) (e := parentEntry x) (Nat.zero_le _) (count ▸ inside)
  rw [ofBytes_bytes (parentEntry x) small rfl,Nat.mul_zero] at entry
  exact entry

/-- No entry of a new directory is in use but the first. -/
theorem new_unlisted (n : Nat) (small : x < 4294967296) (i : Nat) :
    ¬ListedAt (arrayWrite (List.replicate n 0) (parentEntry x).bytes 0 36) i := by
  rintro ⟨positive,inside,used⟩
  rw [entryAt_new n small i inside,if_neg (by omega),entryAt_zeros] at used
  exact Bool.false_ne_true used

theorem new_count (n : Nat) : 0 < entryCount (arrayWrite (List.replicate n 0) (parentEntry x).bytes 0 36) := by
  have count := entryCount_write (List.replicate n 0) (parentEntry x) 0
  rw [Nat.mul_zero] at count
  omega

end
end MyShell.FS
