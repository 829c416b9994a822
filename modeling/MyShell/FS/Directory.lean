import MyShell.FS.File

/-! directory.c. A directory is a file of 36-byte entries; the first one points to the
parent directory and is not searched. -/
namespace MyShell.FS
open BlockProgram

/-- NAME_MAX of directory.h. -/
abbrev nameMax : Nat := 30

abbrev sizeofDirEntry : Nat := 36

/-- `struct dir_entry`. The name field has NAME_MAX + 1 bytes. -/
structure DirEntry where
  inodeSector : Nat
  name : List Byte
  inUse : Bool

namespace DirEntry

def ofBytes (bytes : List Byte) : DirEntry where
  inodeSector := littleEndian (bytes.getD 0 0) (bytes.getD 1 0) (bytes.getD 2 0) (bytes.getD 3 0)
  name := (bytes.drop 4).take 31
  inUse := bytes.getD 35 0 != 0

def bytes (e : DirEntry) : List Byte :=
  (List.range 4).map (byteOf e.inodeSector) ++ ((List.range 31).map fun i => e.name.getD i 0) ++
    [if e.inUse then 1 else 0]

/-- The name as string.h sees it. -/
def nameString (e : DirEntry) : CString := CString.ofBuffer e.name

end DirEntry

/-- `strncpy` into a field of `n` bytes. -/
def strncpy (source : CString) (n : Nat) : List Byte := (List.range n).map fun i => source.chars.getD i 0

/-- The tokens that `strtok_r` finds between slashes. -/
def pathTokens (path : CString) : List CString :=
  ((path.chars.splitOn 47).filter fun token => !token.isEmpty).map CString.ofBuffer

def isAbsolute (path : CString) : Bool := path.chars.head? == some 47

def emptyString : CString := ⟨[],List.not_mem_nil⟩

/-- The directory part of a path, each name in it with a slash behind, and the last name. -/
def splitPathFilename (path : CString) : CString × CString :=
  (CString.ofBuffer ((if isAbsolute path then [47] else []) ++
      (pathTokens path).dropLast.flatMap fun token => token.chars ++ [47]),
    (pathTokens path).getLastD emptyString)

def dirOpen : Option Nat → FsM (Option Nat)
  | none => pure none
  | some inode => do
    let h ← getHandles
    setHandles {h with dirs := h.dirs.alloc {inode := inode, pos := sizeofDirEntry, openCnt := 1}}
    pure (some h.dirs.next)

def setCwd (dir : Option Nat) : FsM Unit := modify fun g => {g with handles.cwd := dir}

/-- The root directory, if no working directory is set. -/
def dirOpenRoot : FsM (Option Nat) := do
  let h ← getHandles
  match h.cwd with
  | none => do
    let inode ← inodeOpen rootDirSector
    let dir ← dirOpen (some inode)
    setCwd dir
    pure dir
  | some dir => do
    modifyDir dir fun d => {d with openCnt := d.openCnt + 1}
    pure (some dir)

/-- The last close of any directory also forgets the working directory. -/
def dirClose : Option Nat → FsM Unit
  | none => pure ()
  | some dir => do
    modifyDir dir fun d => {d with openCnt := d.openCnt - 1}
    let h ← getHandles
    if (h.dir dir).openCnt = 0 then do
      inodeClose (some (h.dir dir).inode)
      modify fun g => {g with handles.dirs := g.handles.dirs.free dir}
      setCwd none
    else pure ()

def dirReopen (dir : Nat) : FsM (Option Nat) := do
  let h ← getHandles
  let inode ← inodeReopen (h.dir dir).inode
  dirOpen (some inode)

def dirGetInode (dir : Nat) : FsM Nat := do return ((← getHandles).dir dir).inode

/-- The loops over a directory: the first entry from `ofs` on that satisfies `test`, or
none, and the offset at which the loop stopped. Each pass starts below the length. -/
def scanEntries (inode : Nat) (test : DirEntry → Bool) : Nat → Int → FsM (Option DirEntry × Int)
  | 0, ofs => pure (none,ofs)
  | fuel+1, ofs => do
    let bytes ← inodeReadAt inode sizeofDirEntry ofs
    if bytes.length = sizeofDirEntry then
      if test (DirEntry.ofBytes bytes) then pure (some (DirEntry.ofBytes bytes),ofs)
      else scanEntries inode test fuel (ofs + sizeofDirEntry)
    else pure (none,ofs)

def scanDirectory (inode : Nat) (test : DirEntry → Bool) (ofs : Int) : FsM (Option DirEntry × Int) := do
  let length ← inodeLength inode
  scanEntries inode test (length.toNat + 1) ofs

def nameTest (name : CString) (e : DirEntry) : Bool := e.inUse && name == e.nameString

/-- The entry of that name and its offset. -/
def lookup (dir : Nat) (name : CString) : FsM (Option (DirEntry × Int)) := do
  let inode ← dirGetInode dir
  let found ← scanDirectory inode (nameTest name) sizeofDirEntry
  return found.1.map fun e => (e,found.2)

def dirIsEmpty (dir : Nat) : FsM Bool := do
  let inode ← dirGetInode dir
  let found ← scanDirectory inode (fun e => e.inUse) sizeofDirEntry
  return found.1.isNone

def dotString : CString := ⟨[46],by decide⟩
def dotDotString : CString := ⟨[46,46],by decide⟩

/-- The inode of that name, opened. -/
def dirLookup (dir : Nat) (name : CString) : FsM (Option Nat) := do
  let self ← dirGetInode dir
  if name = dotString then do
    let inode ← inodeReopen self
    pure (some inode)
  else if name = dotDotString then do
    let bytes ← inodeReadAt self sizeofDirEntry 0
    let inode ← inodeOpen (DirEntry.ofBytes bytes).inodeSector
    pure (some inode)
  else do
    let found ← lookup dir name
    match found with
    | none => pure none
    | some entry => do
      let inode ← inodeOpen entry.1.inodeSector
      pure (some inode)

/-- The walk of `dir_open_path`, from an open directory. -/
def walkPath : Nat → List CString → FsM (Option Nat)
  | curr, [] => do
    let inode ← dirGetInode curr
    let removed ← inodeIsRemoved inode
    if removed then do
      dirClose (some curr)
      pure none
    else pure (some curr)
  | curr, token :: rest => do
    let inode ← dirLookup curr token
    match inode with
    | none => do
      dirClose (some curr)
      pure none
    | some inode => do
      let next ← dirOpen (some inode)
      dirClose (some curr)
      match next with
      | none => pure none
      | some next => walkPath next rest

def dirOpenPath (path : CString) : FsM (Option Nat) := do
  let h ← getHandles
  let curr ← (match h.cwd with
    | none => dirOpenRoot
    | some dir => if isAbsolute path then dirOpenRoot else dirReopen dir)
  match curr with
  | none => pure none
  | some curr => walkPath curr (pathTokens path)

/-- Creates a directory whose first entry points to itself. The length is an `offset_t`. -/
def dirCreate (sector entryCnt : Nat) : FsM Bool := do
  let created ← inodeCreate sector (i32 (entryCnt * sizeofDirEntry)) true
  if created then do
    let inode ← inodeOpen sector
    let dir ← dirOpen (some inode)
    let e : DirEntry := {inodeSector := sector, name := List.replicate 31 0, inUse := true}
    let written ← inodeWriteAt inode e.bytes sizeofDirEntry 0
    dirClose dir
    return written == sizeofDirEntry
  else pure false

/-- The entry of the parent in a new directory. Its name is whatever the stack holds. -/
def dirAddParent (stale : List Byte) (dir inodeSector : Nat) : FsM Bool := do
  let inode ← inodeOpen inodeSector
  let child ← dirOpen (some inode)
  let self ← dirGetInode dir
  let number ← inodeGetInumber self
  let written ← inodeWriteAt inode (DirEntry.mk number stale true).bytes sizeofDirEntry 0
  dirClose child
  return written == sizeofDirEntry

/-- The last part of `dir_add`: the first slot that is free, or a new one at the end. -/
def dirAddSlot (dir : Nat) (name : CString) (inodeSector : Nat) : FsM Bool := do
  let inode ← dirGetInode dir
  let slot ← scanDirectory inode (fun e => !e.inUse) 0
  let written ← inodeWriteAt inode (DirEntry.mk inodeSector (strncpy name 31) true).bytes sizeofDirEntry slot.2
  return written == sizeofDirEntry

def dirAdd (stale : List Byte) (dir : Nat) (name : CString) (inodeSector : Nat) (isDir : Bool) : FsM Bool :=
  if strlen name = 0 ∨ strlen name > nameMax then pure false
  else do
    let used ← lookup dir name
    if used.isSome then pure false
    else do
      let ready ← (if isDir then dirAddParent stale dir inodeSector else pure true)
      if ready then dirAddSlot dir name inodeSector else pure false

/-- Whether the directory behind an open inode may be removed. Closes that inode once. -/
def removable (inode : Nat) : FsM Bool := do
  let isDirectory ← inodeIsDirectory inode
  if isDirectory then do
    let target ← dirOpen (some inode)
    let isEmpty ← (match target with
      | none => pure true
      | some target => dirIsEmpty target)
    dirClose target
    pure isEmpty
  else pure true

def dirRemove (dir : Nat) (name : CString) : FsM Bool := do
  let found ← lookup dir name
  match found with
  | none => pure false
  | some entry => do
    let inode ← inodeOpen entry.1.inodeSector
    let empty ← removable inode
    if empty then do
      let self ← dirGetInode dir
      let written ← inodeWriteAt self {entry.1 with inUse := false}.bytes sizeofDirEntry entry.2
      if written = sizeofDirEntry then do
        inodeRemove inode
        inodeClose (some inode)
        pure true
      else do
        inodeClose (some inode)
        pure false
    else do
      inodeClose (some inode)
      pure false

/-- The next entry in use from the position of the directory on. -/
def dirReaddirEntry (dir : Nat) : FsM (Option DirEntry) := do
  let h ← getHandles
  let found ← scanDirectory (h.dir dir).inode (fun e => e.inUse) (h.dir dir).pos
  modifyDir dir fun d => {d with pos := found.2 + if found.1.isSome then sizeofDirEntry else 0}
  pure found.1

/-- Its name, as `strncpy` puts it into a buffer of NAME_MAX + 1 bytes. -/
def dirReaddir (dir : Nat) : FsM (Option (List Byte)) := do
  let found ← dirReaddirEntry dir
  return found.map DirEntry.name

def dirReaddirInode (dir : Nat) : FsM (Option (List Byte × Nat)) := do
  let found ← dirReaddirEntry dir
  return found.map fun e => (e.name,e.inodeSector)

end MyShell.FS
