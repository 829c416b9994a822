import MyShell.FS.Inode

/-! file.c with its table of open files, and the part of free-map.c and bitmap.c that
works on the open free map file. -/
namespace MyShell.FS
open BlockProgram

def initFileTable : FsM Unit := modify fun g => {g with handles.fileTable := []}

/-- Takes over the inode; a null pointer gives a null pointer. -/
def fileOpen : Option Nat → FsM (Option Nat)
  | none => pure none
  | some inode => do
    let h ← getHandles
    setHandles {h with files := h.files.alloc {inode := inode, pos := 0, denyWrite := false}}
    pure (some h.files.next)

def fileAllowWrite (file : Nat) : FsM Unit := do
  let h ← getHandles
  if (h.file file).denyWrite then do
    modifyFile file fun f => {f with denyWrite := false}
    inodeAllowWrite (h.file file).inode
  else pure ()

def fileDenyWrite (file : Nat) : FsM Unit := do
  let h ← getHandles
  if (h.file file).denyWrite then pure ()
  else do
    modifyFile file fun f => {f with denyWrite := true}
    inodeDenyWrite (h.file file).inode

def fileClose : Option Nat → FsM Unit
  | none => pure ()
  | some file => do
    fileAllowWrite file
    let h ← getHandles
    inodeClose (some (h.file file).inode)
    modify fun g => {g with handles.files := g.handles.files.free file}

def fileGetInode (file : Nat) : FsM Nat := do return ((← getHandles).file file).inode

def fileReadAt (file : Nat) (size fileOfs : Int) : FsM (List Byte) := do
  let h ← getHandles
  inodeReadAt (h.file file).inode size fileOfs

def fileRead (file : Nat) (size : Int) : FsM (List Byte) := do
  let h ← getHandles
  let bytes ← inodeReadAt (h.file file).inode size (h.file file).pos
  modifyFile file fun f => {f with pos := i32 (f.pos + bytes.length)}
  pure bytes

/-- `file_write` ends the caller's buffer in a null byte before it writes it, and moves
the position to two bytes before the end of what it wrote. -/
def fileWrite (file : Nat) (buffer : List Byte) (size : Int) : FsM Int := do
  let h ← getHandles
  let bytesWritten ← inodeWriteAt (h.file file).inode (buffer.set (size - 1).toNat 0) size (h.file file).pos
  modifyFile file fun f => {f with pos := i32 (f.pos + (bytesWritten - 2))}
  pure bytesWritten

def fileLength (file : Nat) : FsM Int := do
  let h ← getHandles
  inodeLength (h.file file).inode

/-- The assertion only prints a message, so a negative position is set as well. -/
def fileSeek (file : Nat) (newPos : Int) : FsM Unit := do
  panicUnless (decide (0 ≤ newPos))
  modifyFile file fun f => {f with pos := newPos}

def fileTell (file : Nat) : FsM Int := do return ((← getHandles).file file).pos

def getFileByFname (fname : CString) : FsM (Option Nat) := do
  let h ← getHandles
  return (h.fileTable.find? fun entry => entry.1 == fname).map Prod.snd

def addToFileTable (file : Nat) (fname : CString) : FsM Unit := do
  let known ← getFileByFname fname
  if known.isSome then pure ()
  else modify fun g => {g with handles.fileTable := g.handles.fileTable ++ [(fname,file)]}

def removeFromFileTable (fname : CString) : FsM Bool := do
  let h ← getHandles
  match h.fileTable.find? fun entry => entry.1 == fname with
  | none => pure false
  | some entry => do
    fileClose (some entry.2)
    modify fun g => {g with handles.fileTable := g.handles.fileTable.eraseP fun entry => entry.1 == fname}
    pure true

/-- The closes of `free_file_table`, front to back. -/
def closeAll : List (CString × Nat) → FsM Unit
  | [] => pure ()
  | entry :: rest => do
    fileClose (some entry.2)
    closeAll rest

def freeFileTable : FsM Unit := do
  let h ← getHandles
  setHandles {h with fileTable := []}
  closeAll h.fileTable

/-- Loads what the file delivers; the flag tells whether that was all. -/
def bitmapRead (file : Nat) : FsM Bool := do
  let g ← get
  let bytes ← fileReadAt file (byteCnt g.freeMap.bitCnt) 0
  modify fun g => {g with freeMap := bitmapLoad g.freeMap bytes}
  return bytes.length == byteCnt g.freeMap.bitCnt || g.freeMap.bitCnt == 0

def freeMapSector : Nat := 0
def rootDirSector : Nat := 1

/-- `free_map_init` for a device of `deviceSize` sectors; the last one gets no bit. -/
def freeMapInit (deviceSize : Nat) : FsM Unit :=
  modify fun g =>
    {g with freeMap := bitmapMark (bitmapMark (bitmapCreate (deviceSize - 1)) freeMapSector) rootDirSector}

def numFreeSectors : FsM Nat := do
  let g ← get
  return bitmapCount g.freeMap 0 (bitmapSize g.freeMap) false


def setFreeMapFile (file : Option Nat) : FsM Unit := modify fun g => {g with handles.freeMapFile := file}

/-- The file pointer is never null, so that is not checked. -/
def freeMapOpen : FsM Unit := do
  let inode ← inodeOpen freeMapSector
  let file ← fileOpen (some inode)
  setFreeMapFile file
  match file with
  | none => panicMessage
  | some file => do
    let read ← bitmapRead file
    panicUnless read

/-- Closes the file, but leaves the pointer to it in `free_map_file`. -/
def freeMapClose : FsM Unit := do
  let h ← getHandles
  fileClose h.freeMapFile

def freeMapCreate : FsM Unit := do
  let g ← get
  let created ← inodeCreate freeMapSector (byteCnt g.freeMap.bitCnt) false
  panicUnless created
  let inode ← inodeOpen freeMapSector
  let file ← fileOpen (some inode)
  setFreeMapFile file
  match file with
  | none => panicMessage
  | some file => do
    let written ← bitmapWrite inodeWriteAt file
    panicUnless written

end MyShell.FS
