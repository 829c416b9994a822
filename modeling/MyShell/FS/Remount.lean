import MyShell.FS.Session

/-! A run in which no allocation fails survives an unmount and a mount. -/
namespace MyShell.FS
open BlockProgram PointerForest Bitmap

/-- The bytes of the free map file, read as `bitmap_read` reads them. -/
def readFreeMap : FsM (List Byte) := do
  let g ← get
  match g.handles.freeMapFile with
  | none => pure []
  | some file => fileReadAt file (byteCnt g.freeMap.bitCnt) 0

section
variable {reserved dirty : Nat → Prop} {s : Volume}

theorem readFreeMap_spec (ready : Ready reserved dirty s) {file : Nat} (pointer : s.vars.handles.freeMapFile = some file) :
    readFreeMap.exec s = (bitmapBytes s.vars.freeMap,s) := by
  obtain ⟨d,opened⟩ := ready.opened file pointer
  have reading := readLoop_spec d (byteCnt s.vars.freeMap.bitCnt) s opened.total opened.limit opened.present
    (byteCnt s.vars.freeMap.bitCnt) (byteCnt s.vars.freeMap.bitCnt) 0 [] (Nat.le_refl _)
  rw [Nat.sub_zero,Nat.min_self,List.nil_append,opened.synced] at reading
  unfold readFreeMap
  simp only [Task.exec_bind,Task.exec_get,pointer]
  unfold fileReadAt inodeReadAt
  simp only [Task.exec_bind,exec_getHandles,opened.data,Int.toNat_natCast]
  exact reading

theorem Mounted.readFreeMap (mounted : Mounted reserved dirty s) :
    (readFreeMap.exec s).1 = bitmapBytes s.vars.freeMap := by
  obtain ⟨f,p,i,mapped⟩ := mounted.idle.mapped
  rw [readFreeMap_spec mounted.ready mapped.pointer]

theorem Mounted.readListed (mounted : Mounted reserved dirty s) {sector : Nat} (listed : ListedSector s sector)
    (size offset : Nat) :
    ((readSector sector size offset).exec s).1 =
      arrayRead (contents (s.device sector) s.device) offset size := by
  obtain ⟨owns,-⟩ := mounted.inside listed
  obtain ⟨h,run,-⟩ := readSector_spec mounted.layout mounted.ready owns mounted.idle.live
    (mounted.idle.unopened (mounted.nonzero owns)) size offset
  rw [run]

end

end MyShell.FS
