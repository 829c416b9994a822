import MyShell.FS.Remove

/-! A file opened by the sector of its inode, written or read, and closed again. -/
namespace MyShell.FS
open BlockProgram PointerForest Bitmap

def writeSector (sector : Nat) (buffer : List Byte) (size offset : Int) : FsM Int := do
  let inode ← inodeOpen sector
  let written ← inodeWriteAt inode buffer size offset
  inodeClose (some inode)
  pure written

def readSector (sector : Nat) (size offset : Int) : FsM (List Byte) := do
  let inode ← inodeOpen sector
  let bytes ← inodeReadAt inode size offset
  inodeClose (some inode)
  pure bytes

section
variable {reserved dirty owner : Nat → Prop} {img : Nat → Sector} {s t : Volume} {x p : Nat} {inode : Inode}

/-- A write whose end is no `offset_t` writes nothing. -/
theorem writeStep_overflow (write : Writer) (layout : Layout reserved owner img s) (owns : owner x)
    (holds : Holds img s p x inode) (buffer : List Byte) (ofs n : Nat) (first : ofs < 2147483648)
    (second : n < 2147483648) (large : 2147483648 ≤ ofs + n) :
    (inodeWriteAtStep write p buffer n ofs).exec s = (0,s) := by
  have limit := layout.limit x owns
  have wrapped : i32 ((ofs : Int) + n) = (ofs : Int) + n - 4294967296 := by
    unfold i32
    omega
  have last : (byteToSector (img x) (i32 (i32 ((ofs : Int) + n) - 1))).exec s = (noSector,s) := by
    apply exec_byteToSector_beyond
    rw [wrapped]
    unfold i32
    omega
  have refused : (inodeReserve write (img x) (i32 ((ofs : Int) + n))).exec s = ((false,img x),s) := by
    unfold inodeReserve
    rw [wrapped,if_pos (by omega),Task.exec_pure]
  have extend := exec_inodeExtend write holds (i32 ((ofs : Int) + n)) false (img x) refused
  rw [if_neg Bool.false_ne_true] at extend
  rw [exec_writeStep_beyond write holds buffer n ofs last,extend,if_neg Bool.false_ne_true,withData,holds.setData_self]

/-- What a write to the file `x` leaves behind once the file is closed. -/
structure Stored (reserved dirty owner : Nat → Prop) (s t : Volume) (x : Nat) (buffer : List Byte) (ofs n : Nat)
    (done : Bool) : Prop where
  layout : Layout reserved owner t.device t
  ready : Ready reserved dirty t
  marks : Marks s t done
  counts : ofs + n < 2147483648 → Counts s t done (need (s.device x) s.device (ofs + n))
  system : ∀ y, reserved y → ¬dirty y → (done = true ∨ y ≠ 0) → t.device y = s.device y
  inodes : ∀ z, owner z → z ≠ x → t.device z = s.device z
  files : ∀ z, owner z → z ≠ x → contents (s.device z) t.device = contents (s.device z) s.device
  trees : ∀ z, owner z → z ≠ x → SameTree (s.device z) s.device t.device
  header : ∀ j, 125 ≤ j → j < 128 → j ≠ 126 → (t.device x).word j = (s.device x).word j
  gains : done = true → ofs + n ≤ 8517120 → Gains s t (s.device x) (t.device x) x
  written : done = true → ofs + n ≤ 8517120 →
    contents (t.device x) t.device = arrayWrite (contents (s.device x) s.device) buffer ofs n
  failed : done = false ∨ 8517120 < ofs + n →
    t.device x = s.device x ∧ contents (s.device x) t.device = contents (s.device x) s.device

/-- The outcome of the write, once its in-memory inode is dropped. -/
theorem WriteOutcome.stored {d : Sector} {buffer : List Byte} {ofs n : Nat} {done : Bool} {h : Handles}
    (outcome : WriteOutcome reserved dirty owner s.device (withHandles s h) t p x buffer ofs n done d) (h' : Handles)
    (ready : Ready reserved dirty (withHandles t h')) :
    Stored reserved dirty owner s (withHandles t h') x buffer ofs n done := by
  have marks : Marks s (withHandles t h') done :=
    ⟨outcome.marks.panics,outcome.marks.size,outcome.marks.mono,outcome.marks.log⟩
  have counts : Counts s (withHandles t h') done (need (s.device x) s.device (ofs + n)) :=
    ⟨outcome.counts.count,outcome.counts.short⟩
  by_cases success : done = true ∧ ofs + n ≤ 8517120
  · obtain ⟨layout,bytes,disk⟩ := outcome.written success.1 success.2
    have own : t.device x = d := disk rfl
    have gains := outcome.gains success.1 success.2
    refine ⟨(layout.image fun z inside => ?_).congr rfl rfl,ready,marks,fun _ => counts,outcome.aside.system,
      outcome.aside.inodes,outcome.aside.files,outcome.aside.trees,fun j high low other => ?_,fun _ _ => ?_,fun _ _ => ?_,
      fun stopped => ?_⟩
    · by_cases same : z = x
      · rw [same,Function.update_self]
        exact own
      · rw [Function.update_of_ne same]
        exact outcome.aside.inodes z inside same
    · rw [withHandles_device,own]
      exact outcome.header j high low other
    · rw [withHandles_device,own]
      exact ⟨gains.kept,gains.exact,gains.fresh⟩
    · rw [withHandles_device,own]
      exact bytes
    · rcases stopped with contrary | large
      · exact absurd (success.1.symm.trans contrary) (by decide)
      · omega
  · have stopped : done = false ∨ 8517120 < ofs + n := by
      cases done with
      | false => exact Or.inl rfl
      | true => exact Or.inr (by by_contra small; exact success ⟨rfl,by omega⟩)
    obtain ⟨layout,bytes,own⟩ := outcome.failed stopped
    refine ⟨(layout.image fun z inside => ?_).congr rfl rfl,ready,marks,fun _ => counts,outcome.aside.system,
      outcome.aside.inodes,outcome.aside.files,outcome.aside.trees,fun j _ _ _ => ?_,
      fun done small => absurd ⟨done,small⟩ success,fun done small => absurd ⟨done,small⟩ success,fun _ => ⟨own,bytes⟩⟩
    · by_cases same : z = x
      · rw [same]
        exact own
      · exact outcome.aside.inodes z inside same
    · rw [withHandles_device,own]
      rfl

theorem Stored.unchanged {buffer : List Byte} {ofs n : Nat} (layout : Layout reserved owner s.device s) (h : Handles)
    (ready : Ready reserved dirty (withHandles s h)) (large : 2147483648 ≤ ofs + n) :
    Stored reserved dirty owner s (withHandles s h) x buffer ofs n true where
  layout := layout.congr rfl rfl
  ready := ready
  marks := ⟨rfl,rfl,fun _ marked => marked,[],(List.append_nil _).symm,by simp,by simp⟩
  counts small := absurd small (Nat.not_lt.mpr large)
  system _ _ _ _ := rfl
  inodes _ _ _ := rfl
  files _ _ _ := rfl
  trees _ _ _ _ _ _ := rfl
  header _ _ _ _ := rfl
  gains _ small := absurd (large.trans small) (by decide)
  written _ small := absurd (large.trans small) (by decide)
  failed _ := ⟨rfl,rfl⟩

/-- The file, just opened. -/
theorem holds_openInode (s : Volume) (live : Live s.vars.handles) (x : Nat) :
    Holds s.device (withHandles s (s.vars.handles.openInode x (s.device x))) s.vars.handles.inodes.next x
      (readInode x (s.device x)) :=
  ⟨ObjectHeap.alloc_cell_next _ _,rfl,rfl,rfl,fun f pointer => live.ne_next f pointer⟩

/-- Readiness goes over to the state after the file is closed. -/
theorem Ready.closeOpened {d : Sector} (ready : Ready reserved dirty t) (live : Live s.vars.handles)
    (handles : t.vars.handles = (s.vars.handles.openInode x (s.device x)).setData s.vars.handles.inodes.next d) :
    (inodeClose (some s.vars.handles.inodes.next)).exec t =
        ((),withHandles t (t.vars.handles.closeInode s.vars.handles.inodes.next)) ∧
      s.vars.handles.Same (t.vars.handles.closeInode s.vars.handles.inodes.next) ∧
      Ready reserved dirty (withHandles t (t.vars.handles.closeInode s.vars.handles.inodes.next)) := by
  have same : s.vars.handles.Same (t.vars.handles.closeInode s.vars.handles.inodes.next) :=
    handles ▸ openInode_same s.vars.handles (s.device x) x fun i => {i with data := d}
  have cell : t.vars.handles.inodes.cell s.vars.handles.inodes.next = some {readInode x (s.device x) with data := d} := by
    rw [handles]
    exact changeInode_cell s.vars.handles (s.device x) x fun i => {i with data := d}
  refine ⟨exec_inodeClose_last t cell rfl rfl,same,ready.rehandle rfl fun f pointer => ?_⟩
  rw [handles] at pointer
  have apart := live.ne_next f pointer
  rw [same.inode_eq,same.file_eq,handles]
  refine Eq.symm ((ObjectHeap.deref_modify_of_ne _ _ _ _ ?_).trans (ObjectHeap.deref_alloc_of_ne _ _ _ ?_))
  · exact apart
  · exact apart

/-- Opening a file, writing to it at a natural offset, and closing it. -/
theorem writeSector_spec (layout : Layout reserved owner s.device s) (ready : Ready reserved dirty s)
    (origin : reserved 0) (owns : owner x) (live : Live s.vars.handles) (closed : s.vars.handles.Unopened x)
    (buffer : List Byte) (ofs n : Nat) (some : 0 < n) (first : ofs < 2147483648) (second : n < 2147483648) :
    ∃ done v, (writeSector x buffer n ofs).exec s = (if done = true ∧ ofs + n ≤ 8517120 then (n : Int) else 0,v) ∧
      s.vars.handles.Same v.vars.handles ∧ Stored reserved dirty owner s v x buffer ofs n done := by
  have opening := exec_inodeOpen_new s x closed
  change _ = (_,withHandles s (s.vars.handles.openInode x (s.device x))) at opening
  have holds := holds_openInode s live x
  have ready' := ready.openInode live x (s.device x)
  have layout' := layout.congr (t := withHandles s (s.vars.handles.openInode x (s.device x))) rfl rfl
  obtain ⟨write,isWrite,steps⟩ := inodeWriteAt_step (withHandles s (s.vars.handles.openInode x (s.device x)))
  have start := steps s.vars.handles.inodes.next buffer n ofs
  by_cases bound : ofs + n < 2147483648
  · obtain ⟨done,t,d,run,outcome⟩ := writeStep_spec isWrite layout' ready' origin owns holds buffer ofs n some bound
    obtain ⟨closing,same,after⟩ := outcome.ready.closeOpened live outcome.handles
    refine ⟨done,_,?_,same,outcome.stored _ after⟩
    rw [run] at start
    unfold writeSector
    simp only [Task.exec_bind,opening,start,closing,Task.exec_pure]
  · have run := writeStep_overflow write layout' owns holds buffer ofs n first second (Nat.le_of_not_lt bound)
    obtain ⟨closing,same,after⟩ := ready'.closeOpened live holds.setData_self.symm
    rw [withHandles_withHandles] at after closing
    refine ⟨true,_,?_,same,Stored.unchanged layout _ after (Nat.le_of_not_lt bound)⟩
    rw [run] at start
    unfold writeSector
    simp only [Task.exec_bind,opening,start,closing,Task.exec_pure]
    rw [if_neg (by omega)]

/-- Opening a file, reading from it, and closing it. -/
theorem readSector_spec (layout : Layout reserved owner s.device s) (ready : Ready reserved dirty s)
    (owns : owner x) (live : Live s.vars.handles) (closed : s.vars.handles.Unopened x) (size ofs : Nat) :
    ∃ h, (readSector x size ofs).exec s = (arrayRead (contents (s.device x) s.device) ofs size,withHandles s h) ∧
      s.vars.handles.Same h ∧ Ready reserved dirty (withHandles s h) := by
  have opening := exec_inodeOpen_new s x closed
  change _ = (_,withHandles s (s.vars.handles.openInode x (s.device x))) at opening
  have holds := holds_openInode s live x
  have ready' := ready.openInode live x (s.device x)
  have reading := inodeReadAt_spec (layout.congr (t := withHandles s (s.vars.handles.openInode x (s.device x))) rfl rfl)
    owns s.vars.handles.inodes.next (by rw [holds.inode_eq,holds.data]) size ofs
  obtain ⟨closing,same,after⟩ := ready'.closeOpened live holds.setData_self.symm
  refine ⟨_,?_,same,after⟩
  unfold readSector
  simp only [Task.exec_bind,opening,reading,closing,Task.exec_pure]
  rfl

end
end MyShell.FS
