import MyShell.Lib.BlockProgram
import MyShell.Lib.ObjectHeap
import MyShell.FS.Cache
import MyShell.FS.Bitmap
import Mathlib.Data.List.TakeWhile

/-! The variables of the file system modules and the programs that run over them.
Sectors are reached only through `buffer_cache_read` and `buffer_cache_write`. -/
namespace MyShell.FS
open BlockProgram

/-- A C string: bytes without the terminating null. -/
@[ext] structure CString where
  chars : List Byte
  noNull : (0 : Byte) ∉ chars

instance : DecidableEq CString := fun left right =>
  decidable_of_iff (left.chars = right.chars) ⟨fun same => CString.ext same,fun same => by rw [same]⟩

def strlen (s : CString) : Nat := s.chars.length

/-- The string that starts at the front of a buffer. -/
def CString.ofBuffer (buffer : List Byte) : CString where
  chars := buffer.takeWhile (· ≠ 0)
  noNull member := by simpa using List.mem_takeWhile_imp member

/-- The value of an `int32_t` (`offset_t`, `int`) after its arithmetic wraps. -/
def i32 (x : Int) : Int := (x + 2147483648) % 4294967296 - 2147483648

theorem i32_bounds (x : Int) : -2147483648 ≤ i32 x ∧ i32 x < 2147483648 := by
  unfold i32
  omega

theorem i32_of_bounds (x : Int) (low : -2147483648 ≤ x) (high : x < 2147483648) : i32 x = x := by
  unfold i32
  omega

/-- `struct inode`, with the on-disk inode it caches as the sector it is. -/
structure Inode where
  sector : Nat
  openCnt : Int
  removed : Bool
  denyWriteCnt : Int
  data : Sector

structure File where
  inode : Nat
  pos : Int
  denyWrite : Bool

structure Dir where
  inode : Nat
  pos : Int
  openCnt : Int

instance : Inhabited Inode := ⟨⟨0,0,false,0,.zeros⟩⟩
instance : Inhabited File := ⟨⟨0,0,false⟩⟩
instance : Inhabited Dir := ⟨⟨0,0,0⟩⟩

/-- The objects in memory and the static variables that point to them. -/
structure Handles where
  inodes : ObjectHeap Inode
  openInodes : List Nat
  files : ObjectHeap File
  dirs : ObjectHeap Dir
  freeMapFile : Option Nat
  cwd : Option Nat
  fileTable : List (CString × Nat)

/-- The variables of the file system. `allocations` is a history variable: the
outcome of every `free_map_allocate`, which no function reads. `panics` counts the
messages of PANIC and of the ASSERTs on released sectors, after which the program goes on. -/
structure Globals where
  freeMap : Bitmap
  handles : Handles
  panics : Nat
  allocations : List (Option Nat)

abbrev FsM := Task Globals Sector

/-- A cache whose entries are coherent, as every cache is since `buffer_cache_init`. -/
structure CacheStore where
  cache : BufferCache
  coherent : cache.Coherent

namespace CacheStore

instance : Device CacheStore Sector where
  read c sector := ((bufferCacheRead c.cache sector).1,
    ⟨(bufferCacheRead c.cache sector).2,(c.cache.read_spec c.coherent sector).2.1⟩)
  write c sector source :=
    ⟨bufferCacheWrite c.cache sector source,(c.cache.write_spec c.coherent sector source).1⟩

/-- Through the cache the file system sees a plain array of sectors. -/
def seen : View CacheStore (Nat → Sector) where
  view c := c.cache.view
  delivered c sector := (c.cache.read_spec c.coherent sector).1.symm
  read c sector := (funext (c.cache.read_spec c.coherent sector).2.2).symm
  write c sector source := by
    funext other
    exact (Function.update_apply _ _ _ _).trans ((c.cache.write_spec c.coherent sector source).2 other).symm

end CacheStore

/-- The file system on its device, behind the buffer cache. -/
abbrev FileSys := Machine Globals CacheStore

/-- The same over a plain array of sectors. -/
abbrev Volume := Machine Globals (Nat → Sector)

/-- The file system as reads through the cache show it. -/
def volume (s : FileSys) : Volume := ⟨s.vars,s.device.cache.view⟩

/-- Every function of the file system acts on the sectors as the cache shows them. -/
theorem exec_volume {α : Type} (task : FsM α) (s : FileSys) :
    task.exec (volume s) = ((task.exec s).1,volume (task.exec s).2) :=
  exec_view CacheStore.seen task s

/-- The state with other handles. -/
def withHandles (s : Volume) (h : Handles) : Volume := {s with vars.handles := h}

theorem withHandles_withHandles (s : Volume) (h h' : Handles) : withHandles (withHandles s h) h' = withHandles s h' := rfl

theorem withHandles_device (s : Volume) (h : Handles) : (withHandles s h).device = s.device := rfl

theorem withHandles_self (s : Volume) : withHandles s s.vars.handles = s := rfl

def bufferRead (sector : Nat) : FsM Sector := Task.read sector

def bufferWrite (sector : Nat) (source : Sector) : FsM Unit := Task.write sector source

@[simp] theorem exec_bufferRead (sector : Nat) (s : Volume) :
    (bufferRead sector).exec s = (s.device sector,s) := rfl

@[simp] theorem exec_bufferWrite (sector : Nat) (source : Sector) (s : Volume) :
    (bufferWrite sector source).exec s = ((),{s with device := Function.update s.device sector source}) := rfl

namespace Handles

def inode (h : Handles) (p : Nat) : Inode := h.inodes.deref p

def file (h : Handles) (p : Nat) : File := h.files.deref p

def dir (h : Handles) (p : Nat) : Dir := h.dirs.deref p

end Handles

def getHandles : FsM Handles := do return (← get).handles

def setHandles (handles : Handles) : FsM Unit := modify fun g => {g with handles := handles}

def modifyInode (p : Nat) (f : Inode → Inode) : FsM Unit :=
  modify fun g => {g with handles.inodes := g.handles.inodes.modify p f}

def modifyFile (p : Nat) (f : File → File) : FsM Unit :=
  modify fun g => {g with handles.files := g.handles.files.modify p f}

def modifyDir (p : Nat) (f : Dir → Dir) : FsM Unit :=
  modify fun g => {g with handles.dirs := g.handles.dirs.modify p f}

/-- PANIC of debug.h. -/
def panicMessage : FsM Unit := modify fun g => {g with panics := g.panics + 1}

/-- ASSERT of debug.h, and a PANIC after a test that failed. -/
def panicUnless (ok : Bool) : FsM Unit := if ok then pure () else panicMessage

@[simp] theorem exec_getHandles (s : Volume) : getHandles.exec s = (s.vars.handles,s) := rfl

@[simp] theorem exec_setHandles (handles : Handles) (s : Volume) :
    (setHandles handles).exec s = ((),{s with vars.handles := handles}) := rfl

@[simp] theorem exec_modifyInode (p : Nat) (f : Inode → Inode) (s : Volume) :
    (modifyInode p f).exec s = ((),{s with vars.handles.inodes := s.vars.handles.inodes.modify p f}) := rfl

@[simp] theorem exec_modifyFile (p : Nat) (f : File → File) (s : Volume) :
    (modifyFile p f).exec s = ((),{s with vars.handles.files := s.vars.handles.files.modify p f}) := rfl

@[simp] theorem exec_modifyDir (p : Nat) (f : Dir → Dir) (s : Volume) :
    (modifyDir p f).exec s = ((),{s with vars.handles.dirs := s.vars.handles.dirs.modify p f}) := rfl

@[simp] theorem exec_panicMessage (s : Volume) :
    panicMessage.exec s = ((),{s with vars.panics := s.vars.panics + 1}) := rfl

end MyShell.FS
