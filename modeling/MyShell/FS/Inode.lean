import MyShell.FS.State

/-! inode.c and free-map.c. Writing a file can allocate sectors, allocating a sector
writes the free map file, and that is again a write to a file: the functions on this
cycle take the write they end in as an argument. -/
namespace MyShell.FS
open BlockProgram

/-- DIRECT_BLOCKS_COUNT, INDIRECT_BLOCKS_PER_SECTOR and INODE_MAGIC of inode.h. -/
abbrev directBlocksCount : Nat := 123
abbrev indirectBlocksPerSector : Nat := 128
abbrev inodeMagic : Nat := 0x494e4f44

/-- `(block_sector_t) -1`, which is BITMAP_ERROR too. -/
abbrev noSector : Nat := 4294967295

/-! The fields of `struct inode_disk`, by their place in the sector. -/
namespace Sector

def directBlock (d : Sector) (i : Nat) : Nat := d.word i

def indirectBlock (d : Sector) : Nat := d.word 123

def doublyIndirectBlock (d : Sector) : Nat := d.word 124

def isDir (d : Sector) : Bool := d.byte 500 != 0

def length (d : Sector) : Int := i32 (d.word 126)

def magic (d : Sector) : Nat := d.word 127

def setLength (d : Sector) (length : Int) : Sector := d.setWord 126 (length % 4294967296).toNat

end Sector

/-- The `calloc`ed inode that `inode_create` fills in. -/
def newInodeDisk (length : Int) (isDir : Bool) : Sector :=
  ((Sector.zeros.setLength length).setWord 127 inodeMagic).setWord 125 (if isDir then 1 else 0)

/-- DIV_ROUND_UP in `offset_t`, converted to `size_t`. -/
def bytesToSectors (size : Int) : Nat := ((i32 (size + 511)).tdiv 512 % 18446744073709551616).toNat

def indexToSector (idisk : Sector) (index : Nat) : FsM Nat :=
  if index < 123 then pure (idisk.directBlock index)
  else if index < 251 then do
    let indirect ← bufferRead idisk.indirectBlock
    pure (indirect.word (index - 123))
  else if index < 16635 then do
    let first ← bufferRead idisk.doublyIndirectBlock
    let second ← bufferRead (first.word ((index - 251) / 128))
    pure (second.word ((index - 251) % 128))
  else pure noSector

def byteToSector (data : Sector) (pos : Int) : FsM Nat :=
  if 0 ≤ pos ∧ pos < data.length then indexToSector data (pos / 512).toNat else pure noSector

def inodeInit : FsM Unit := modify fun g => {g with handles.openInodes := []}

/-- `inode_reopen` hands the pointer back and counts nothing. -/
def inodeReopen (inode : Nat) : FsM Nat := pure inode

def inodeOpen (sector : Nat) : FsM Nat := do
  let h ← getHandles
  match h.openInodes.find? fun p => (h.inode p).sector == sector with
  | some inode => inodeReopen inode
  | none => do
    let data ← bufferRead sector
    setHandles {h with
      openInodes := h.inodes.next :: h.openInodes
      inodes := h.inodes.alloc {
        sector := sector
        openCnt := 1
        removed := false
        denyWriteCnt := 0
        data := data}}
    pure h.inodes.next

def inodeGetInumber (inode : Nat) : FsM Nat := do return ((← getHandles).inode inode).sector

def inodeRemove (inode : Nat) : FsM Unit := modifyInode inode fun i => {i with removed := true}

def inodeLength (inode : Nat) : FsM Int := do return ((← getHandles).inode inode).data.length

def inodeIsDirectory (inode : Nat) : FsM Bool := do return ((← getHandles).inode inode).data.isDir

def inodeIsRemoved (inode : Nat) : FsM Bool := do return ((← getHandles).inode inode).removed

def inodeDenyWrite (inode : Nat) : FsM Unit :=
  modifyInode inode fun i => {i with denyWriteCnt := i.denyWriteCnt + 1}

def inodeAllowWrite (inode : Nat) : FsM Unit :=
  modifyInode inode fun i => {i with denyWriteCnt := i.denyWriteCnt - 1}

/-- The bytes of this pass of the loops of `inode_read_at` and `inode_write_at`:
what is wanted, cut to the end of the file and to the end of the sector. -/
def chunkSize (data : Sector) (size offset : Int) : Int :=
  let inodeLeft := data.length - offset
  let sectorLeft := 512 - offset.tmod 512
  let minLeft := if inodeLeft < sectorLeft then inodeLeft else sectorLeft
  if size < minLeft then size else minLeft

/-- The loop of `inode_read_at`, a pass for each unit of fuel. A full sector goes
straight into the caller's buffer, with the same bytes as through the bounce buffer. -/
def readLoop (data : Sector) : Nat → Int → Int → List Byte → FsM (List Byte)
  | 0, _, _, buffer => pure buffer
  | fuel+1, size, offset, buffer =>
    if chunkSize data size offset ≤ 0 then pure buffer
    else do
      let sectorIdx ← byteToSector data offset
      let bounce ← bufferRead sectorIdx
      readLoop data fuel (size - chunkSize data size offset) (offset + chunkSize data size offset)
        (buffer ++ bounce.slice (offset.tmod 512).toNat (chunkSize data size offset).toNat)

/-- The bytes delivered; their number is what `inode_read_at` returns. -/
def inodeReadAt (inode : Nat) (size offset : Int) : FsM (List Byte) := do
  let h ← getHandles
  readLoop (h.inode inode).data size.toNat size offset []

/-- The loop of `inode_write_at`. -/
def writeLoop (data : Sector) (buffer : List Byte) : Nat → Int → Int → Int → FsM Int
  | 0, _, _, bytesWritten => pure bytesWritten
  | fuel+1, size, offset, bytesWritten =>
    if chunkSize data size offset ≤ 0 then pure bytesWritten
    else do
      let sectorIdx ← byteToSector data offset
      let sectorOfs := (offset.tmod 512).toNat
      let chunk := (chunkSize data size offset).toNat
      let bounce ← (if sectorOfs > 0 ∨ chunk < 512 - sectorOfs then bufferRead sectorIdx else pure Sector.zeros)
      bufferWrite sectorIdx (bounce.splice sectorOfs buffer bytesWritten.toNat chunk)
      writeLoop data buffer fuel (size - chunkSize data size offset) (offset + chunkSize data size offset)
        (bytesWritten + chunkSize data size offset)

/-- A write to an open inode: the inode, the buffer, the size and the offset. -/
abbrev Writer := Nat → List Byte → Int → Int → FsM Int

def fileWriteAt (write : Writer) (file : Nat) (buffer : List Byte) (size fileOfs : Int) : FsM Int := do
  let h ← getHandles
  write (h.file file).inode buffer size fileOfs

/-- `bitmap_write` of the free map to its file. -/
def bitmapWrite (write : Writer) (file : Nat) : FsM Bool := do
  let g ← get
  let written ← fileWriteAt write file (bitmapBytes g.freeMap) (byteCnt g.freeMap.bitCnt) 0
  return written == byteCnt g.freeMap.bitCnt

/-- `bitmap_write(free_map, free_map_file)`, where `free_map_file` may still be null. -/
def freeMapWrite (write : Writer) : FsM Bool := do
  let h ← getHandles
  match h.freeMapFile with
  | none => pure true
  | some file => bitmapWrite write file

def recordAllocation (outcome : Option Nat) : FsM Unit :=
  modify fun g => {g with allocations := g.allocations ++ [outcome]}

def freeMapAllocate (write : Writer) (cnt : Nat) : FsM (Option Nat) := do
  let g ← get
  let found := bitmapScanAndFlip g.freeMap 0 cnt false
  set {g with freeMap := found.2}
  match found.1 with
  | none => do
    recordAllocation none
    pure none
  | some sector => do
    let written ← freeMapWrite write
    if written then do
      recordAllocation (some sector)
      pure (some sector)
    else do
      modify fun g => {g with freeMap := bitmapSetMultiple g.freeMap sector cnt false}
      recordAllocation none
      pure none

def freeMapRelease (write : Writer) (sector cnt : Nat) : FsM Unit := do
  let g ← get
  panicUnless (bitmapAll g.freeMap sector cnt)
  modify fun g => {g with freeMap := bitmapSetMultiple g.freeMap sector cnt false}
  let _ ← freeMapWrite write

/-- Entries that one block of a level covers: `level == 1 ? 1 : INDIRECT_BLOCKS_PER_SECTOR`. -/
def entryUnit (level : Nat) : Nat := if level = 1 then 1 else 128

/-- The entry loop of `inode_reserve_indirect`, and with the whole function at level 0
that of the direct blocks in `inode_reserve`. Stops at the first entry that fails. -/
def reserveEntries (reserve : Nat → Nat → FsM (Bool × Nat)) (unit : Nat) :
    Nat → Nat → Nat → Sector → FsM (Bool × Sector)
  | 0, _, _, block => pure (true,block)
  | count+1, i, numSectors, block => do
    let entry ← reserve (block.word i) (min numSectors unit)
    if entry.1 then
      reserveEntries reserve unit count (i+1) (numSectors - min numSectors unit) (block.setWord i entry.2)
    else pure (false,block.setWord i entry.2)

/-- The first allocation of `inode_reserve_indirect` above level 0, which is not checked. -/
def reserveBlock (write : Writer) : FsM Nat := do
  let found ← freeMapAllocate write 1
  bufferWrite (found.getD 0) Sector.zeros
  pure (found.getD 0)

/-- Returns the success flag and the entry that `p_entry` points to afterwards. -/
def inodeReserveIndirect (write : Writer) : Nat → Nat → Nat → FsM (Bool × Nat)
  | 0, entry, _ =>
    if entry = 0 then do
      let found ← freeMapAllocate write 1
      match found with
      | none => pure (false,entry)
      | some sector => do
        bufferWrite sector Sector.zeros
        pure (true,sector)
    else pure (true,entry)
  | level+1, entry, numSectors => do
    let entry ← (if entry = 0 then reserveBlock write else pure entry)
    let indirectBlock ← bufferRead entry
    let filled ← reserveEntries (inodeReserveIndirect write level) (entryUnit (level+1))
      ((numSectors + entryUnit (level+1) - 1) / entryUnit (level+1)) 0 numSectors indirectBlock
    if filled.1 then do
      bufferWrite entry filled.2
      pure (true,entry)
    else pure (false,entry)

/-- The success flag and the on-disk inode that `disk_inode` points to afterwards. -/
def inodeReserve (write : Writer) (diskInode : Sector) (length : Int) : FsM (Bool × Sector) :=
  if length < 0 then pure (false,diskInode)
  else do
    let numSectors := bytesToSectors length
    let direct ← reserveEntries (inodeReserveIndirect write 0) 1 (min numSectors 123) 0 (min numSectors 123) diskInode
    if !direct.1 then pure (false,direct.2)
    else if numSectors - 123 = 0 then pure (true,direct.2)
    else do
      let indirect ← inodeReserveIndirect write 1 direct.2.indirectBlock (min (numSectors - 123) 128)
      if !indirect.1 then pure (false,direct.2.setWord 123 indirect.2)
      else if numSectors - 123 - 128 = 0 then pure (true,direct.2.setWord 123 indirect.2)
      else do
        let doubly ← inodeReserveIndirect write 2 direct.2.doublyIndirectBlock (min (numSectors - 123 - 128) 16384)
        pure (doubly.1 && numSectors - 123 - 128 - 16384 == 0,
          (direct.2.setWord 123 indirect.2).setWord 124 doubly.2)

def inodeAllocate (write : Writer) (diskInode : Sector) : FsM (Bool × Sector) :=
  inodeReserve write diskInode diskInode.length

/-- The extension at the head of `inode_write_at`. The block pointers reserved before
a failure stay in the open inode. -/
def inodeExtend (write : Writer) (inode : Nat) (length : Int) : FsM Bool := do
  let h ← getHandles
  let reserved ← inodeReserve write (h.inode inode).data length
  if reserved.1 then do
    modifyInode inode fun i => {i with data := reserved.2.setLength length}
    bufferWrite (h.inode inode).sector (reserved.2.setLength length)
    pure true
  else do
    modifyInode inode fun i => {i with data := reserved.2}
    pure false

/-- `inode_write_at`, with the write that an allocation inside it ends in. -/
def inodeWriteAtStep (write : Writer) : Writer := fun inode buffer size offset => do
  let h ← getHandles
  if (h.inode inode).denyWriteCnt ≠ 0 then pure 0
  else do
    let last ← byteToSector (h.inode inode).data (i32 (i32 (offset + size) - 1))
    let ready ← (if last = noSector then inodeExtend write inode (i32 (offset + size)) else pure true)
    if ready then do
      let h ← getHandles
      writeLoop (h.inode inode).data buffer size.toNat size offset 0
    else pure 0

/-- The nesting of writes, each inside an allocation of the one before. -/
def inodeWriteAtDepth : Nat → Writer
  | 0 => fun _ _ _ _ => pure 0
  | depth+1 => inodeWriteAtStep (inodeWriteAtDepth depth)

/-- A nested write that allocates again holds one more bit of the free map, so the
nesting is bounded by its size. -/
def inodeWriteAt : Writer := fun inode buffer size offset => do
  let g ← get
  inodeWriteAtDepth (g.freeMap.bitCnt + 2) inode buffer size offset

def inodeCreate (sector : Nat) (length : Int) (isDir : Bool) : FsM Bool := do
  let reserved ← inodeAllocate inodeWriteAt (newInodeDisk length isDir)
  if reserved.1 then do
    bufferWrite sector reserved.2
    pure true
  else pure false

/-- The entry loop of `inode_deallocate_indirect` and of the direct blocks. What is left
of `num_sectors` is returned. -/
def deallocateEntries (deallocate : Nat → Nat → FsM Unit) (unit : Nat) : Nat → Nat → Nat → Sector → FsM Nat
  | 0, _, numSectors, _ => pure numSectors
  | count+1, i, numSectors, block => do
    deallocate (block.word i) (min numSectors unit)
    deallocateEntries deallocate unit count (i+1) (numSectors - min numSectors unit) block

def inodeDeallocateIndirect (write : Writer) : Nat → Nat → Nat → FsM Unit
  | 0, entry, _ => freeMapRelease write entry 1
  | level+1, entry, numSectors => do
    let indirectBlock ← bufferRead entry
    let left ← deallocateEntries (inodeDeallocateIndirect write level) (entryUnit (level+1))
      ((numSectors + entryUnit (level+1) - 1) / entryUnit (level+1)) 0 numSectors indirectBlock
    panicUnless (left == 0)
    freeMapRelease write entry 1

def inodeDeallocate (write : Writer) (data : Sector) : FsM Bool :=
  if data.length < 0 then pure false
  else do
    let numSectors := bytesToSectors data.length
    let _ ← deallocateEntries (inodeDeallocateIndirect write 0) 1 (min numSectors 123) 0 (min numSectors 123) data
    let _ ← (if min (numSectors - 123) 128 > 0 then
        inodeDeallocateIndirect write 1 data.indirectBlock (min (numSectors - 123) 128)
      else pure ())
    let _ ← (if min (numSectors - 123 - 128) 16384 > 0 then
        inodeDeallocateIndirect write 2 data.doublyIndirectBlock (min (numSectors - 123 - 128) 16384)
      else pure ())
    panicUnless (numSectors - 123 - 128 - 16384 == 0)
    pure true

/-- Closes an inode; a null pointer is ignored. -/
def inodeClose : Option Nat → FsM Unit
  | none => pure ()
  | some inode => do
    modifyInode inode fun i => {i with openCnt := i.openCnt - 1}
    let h ← getHandles
    if (h.inode inode).openCnt = 0 then do
      setHandles {h with openInodes := h.openInodes.erase inode}
      if (h.inode inode).removed then do
        freeMapRelease inodeWriteAt (h.inode inode).sector 1
        let _ ← inodeDeallocate inodeWriteAt (h.inode inode).data
        modify fun g => {g with handles.inodes := g.handles.inodes.free inode}
      else modify fun g => {g with handles.inodes := g.handles.inodes.free inode}
    else pure ()

end MyShell.FS
