import MyShell.FS.Directory

/-! filesys.c: mounting, formatting, and the operations on paths. -/
namespace MyShell.FS
open BlockProgram

/-- MAX_FILES_IN_DIRECTORY of filesys.h. -/
abbrev maxFilesInDirectory : Nat := 1000

def doFormat : FsM Unit := do
  freeMapCreate
  let created ← dirCreate rootDirSector maxFilesInDirectory
  panicUnless created
  freeMapClose

/-- `filesys_init` up to the cache, over a device of `deviceSize` sectors. -/
def initVars (deviceSize : Nat) : FsM Unit := do
  inodeInit
  freeMapInit deviceSize

/-- The rest of `filesys_init`. -/
def initFiles (format : Bool) : FsM Unit := do
  let _ ← (if format then doFormat else pure ())
  freeMapOpen
  initFileTable

namespace CacheStore

/-- `buffer_cache_init` on the device as it is. -/
def init (c : CacheStore) : CacheStore := ⟨bufferCacheInit c.cache,c.cache.init_coherent⟩

/-- `buffer_cache_close`, after which the entries are still there. -/
def close (c : CacheStore) : CacheStore := ⟨bufferCacheClose c.cache,(c.cache.flushOccupied_spec _ c.coherent).1⟩

end CacheStore

def filesysInit (format : Bool) (s : FileSys) : FileSys :=
  let s := ((initVars s.device.cache.fsDevice.size).exec s).2
  ((initFiles format).exec ⟨s.vars,s.device.init⟩).2

def filesysDone (s : FileSys) : FileSys :=
  let s := (freeMapClose.exec s).2
  (freeFileTable.exec ⟨s.vars,s.device.close⟩).2

/-- The stages of `filesys_create` after the directory was opened, and the sector that
`inode_sector` holds when they end. -/
def createInode (stale : List Byte) (dir : Nat) (name : CString) (initialSize : Int) (isDir : Bool) :
    FsM (Bool × Nat) := do
  let found ← freeMapAllocate inodeWriteAt 1
  match found with
  | none => pure (false,0)
  | some inodeSector => do
    let created ← inodeCreate inodeSector initialSize isDir
    if created then do
      let added ← dirAdd stale dir name inodeSector isDir
      pure (added,inodeSector)
    else pure (false,inodeSector)

/-- Always creates in the directory `dir_open_root` returns, whatever the path says. -/
def filesysCreate (stale : List Byte) (path : CString) (initialSize : Int) (isDir : Bool) : FsM Bool := do
  let dir ← dirOpenRoot
  let result ← (match dir with
    | none => pure (false,0)
    | some dir => createInode stale dir (splitPathFilename path).2 initialSize isDir)
  let _ ← (if !result.1 && result.2 != 0 then freeMapRelease inodeWriteAt result.2 1 else pure ())
  dirClose dir
  pure result.1

/-- The inode that `filesys_open` finds. The directory stays open if the path names none. -/
def openInode (dir : Nat) (name : CString) : FsM (Option Nat) :=
  if strlen name > 0 then do
    let inode ← dirLookup dir name
    dirClose (some dir)
    pure inode
  else do
    let inode ← dirGetInode dir
    pure (some inode)

def filesysOpen (name : CString) : FsM (Option Nat) :=
  if strlen name = 0 then pure none
  else do
    let dir ← dirOpenRoot
    match dir with
    | none => pure none
    | some dir => do
      let inode ← openInode dir (splitPathFilename name).2
      match inode with
      | none => pure none
      | some inode => do
        let removed ← inodeIsRemoved inode
        if removed then pure none else fileOpen (some inode)

def filesysRemove (name : CString) : FsM Bool := do
  let dir ← dirOpenPath (splitPathFilename name).1
  match dir with
  | none => pure false
  | some dir => do
    let success ← dirRemove dir (splitPathFilename name).2
    dirClose (some dir)
    pure success

def filesysChdir (name : CString) : FsM Bool := do
  let dir ← dirOpenPath name
  match dir with
  | none => pure false
  | some dir => do
    let h ← getHandles
    dirClose h.cwd
    setCwd (some dir)
    pure true

end MyShell.FS
