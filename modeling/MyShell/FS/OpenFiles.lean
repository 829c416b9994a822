import MyShell.FS.Session
import Mathlib.Data.List.GetD

/-! Files that stay open: whatever is created, written and read through their inodes,
each of them is a growable array of bytes of its own. -/
namespace MyShell.FS
open BlockProgram PointerForest Bitmap

/-- A new inode on a sector of the free map, opened. -/
def newFile (length : Int) (isDir : Bool) : FsM (Option Nat) := do
  match ← freeMapAllocate inodeWriteAt 1 with
  | none => pure none
  | some sector =>
    if ← inodeCreate sector length isDir then do
      let inode ← inodeOpen sector
      pure (some inode)
    else pure none

/-- The bytes of an open file. -/
def fileArray (s : Volume) (p : Nat) : List Byte := contents (s.vars.handles.inode p).data s.device

/-- The arrays after an inode was created. -/
def addArray (arrays : Nat → List Byte) (created : Option Nat) (length : Int) (p : Nat) : List Byte :=
  if created = some p then List.replicate length.toNat 0 else arrays p

/-- The states that creations, complete writes and reads lead to, with the inodes that were
created and the arrays of bytes that they stand for. -/
inductive Worked (s₀ : FileSys) : FileSys → List Nat → (Nat → List Byte) → Prop
  | start : Worked s₀ s₀ [] fun _ => []
  | create {s files arrays} (before : Worked s₀ s files arrays) (length : Int) (isDir : Bool)
      (low : -2147483648 ≤ length) (high : length < 2147483648) :
      Worked s₀ ((newFile length isDir).exec s).2 (((newFile length isDir).exec s).1.toList ++ files)
        (addArray arrays ((newFile length isDir).exec s).1 length)
  | write {s files arrays} (before : Worked s₀ s files arrays) {p : Nat} (member : p ∈ files) (buffer : List Byte)
      (size offset : Int) (some : 1 ≤ size) (low : 0 ≤ offset) (limit : offset + size ≤ 8517120)
      (complete : ((inodeWriteAt p buffer size offset).exec s).1 = size) :
      Worked s₀ ((inodeWriteAt p buffer size offset).exec s).2 files
        (Function.update arrays p (arrayWrite (arrays p) buffer offset.toNat size.toNat))
  | read {s files arrays} (before : Worked s₀ s files arrays) {p : Nat} (member : p ∈ files) (size offset : Int)
      (some : 1 ≤ size) (low : 0 ≤ offset) (limit : offset + size ≤ 8517120) :
      Worked s₀ ((inodeReadAt p size offset).exec s).2 files arrays

def inodeSector (s : Volume) (p : Nat) : Nat := (s.vars.handles.inode p).sector

/-- The inode `p` is open on a file with the bytes `a`, which is none of the files of `base`. -/
structure OpenFile (owner base : Nat → Prop) (s : Volume) (p : Nat) (a : List Byte) : Prop where
  holds : Holds s.device s p (inodeSector s p) (s.vars.handles.inode p)
  owns : owner (inodeSector s p)
  apart : ¬base (inodeSector s p)
  array : contents (s.device (inodeSector s p)) s.device = a

/-- The open files and those of `base`, which are as in the state `s₀`, own their sectors. -/
structure Working (reserved dirty owner base : Nat → Prop) (s₀ s : Volume) (files : List Nat)
    (arrays : Nat → List Byte) : Prop where
  layout : Layout reserved owner s.device s
  ready : Ready reserved dirty s
  origin : reserved freeMapSector
  live : Live s.vars.handles
  marked : ∀ p ∈ s.vars.handles.openInodes, bitmapTest s.vars.freeMap (inodeSector s p) = true
  sub : ∀ z, base z → owner z
  still : ∀ z, base z → s.device z = s₀.device z ∧ contents (s.device z) s.device = contents (s₀.device z) s₀.device
  file : ∀ p ∈ files, OpenFile owner base s p (arrays p)
  distinct : ∀ p ∈ files, ∀ q ∈ files, inodeSector s p = inodeSector s q → p = q

section
variable {reserved dirty owner wide base : Nat → Prop} {s₀ s t : Volume} {files : List Nat} {arrays : Nat → List Byte}
  {p : Nat} {a : List Byte}

theorem Mounted.working (mounted : Mounted reserved dirty s) :
    Working reserved dirty (Owns (rootArray s)) (Owns (rootArray s)) s s [] fun _ => [] := by
  refine ⟨mounted.layout,mounted.ready,mounted.origin,mounted.idle.live,fun p member => ?_,fun z inside => inside,
    fun z inside => ⟨rfl,rfl⟩,fun p member => absurd member List.not_mem_nil,fun p member => absurd member List.not_mem_nil⟩
  rw [inodeSector,mounted.idle.only p member]
  exact mounted.ready.origin

/-- The inode in memory is the one on disk. -/
theorem OpenFile.fileArray_eq (file : OpenFile owner base s p a) : fileArray s p = a := by
  rw [fileArray,file.holds.data,file.array]

theorem inode_congr (cell : t.vars.handles.inodes.cell p = s.vars.handles.inodes.cell p) :
    t.vars.handles.inode p = s.vars.handles.inode p := congrArg (fun c : Option Inode => c.getD default) cell

/-- A file whose inode and bytes a step leaves alone. -/
theorem OpenFile.kept (file : OpenFile owner base s p a) (more : ∀ z, owner z → wide z)
    (cell : t.vars.handles.inodes.cell p = s.vars.handles.inodes.cell p)
    (opened : t.vars.handles.files = s.vars.handles.files)
    (pointer : t.vars.handles.freeMapFile = s.vars.handles.freeMapFile)
    (inode : t.device (inodeSector s p) = s.device (inodeSector s p))
    (bytes : contents (s.device (inodeSector s p)) t.device = contents (s.device (inodeSector s p)) s.device) :
    OpenFile wide base t p a := by
  have same : inodeSector t p = inodeSector s p := congrArg Inode.sector (inode_congr cell)
  refine ⟨⟨?_,rfl,?_,?_,fun f held => ?_⟩,same ▸ more _ file.owns,same ▸ file.apart,?_⟩
  · rw [cell,file.holds.cell,inode_congr cell]
  · rw [inode_congr cell,same,inode,file.holds.data]
  · rw [inode_congr cell,file.holds.writable]
  · rw [Handles.file,opened]
    exact file.holds.other f (pointer.symm.trans held)
  · rw [same,inode,bytes,file.array]

/-- A step that touches no file that is there. -/
theorem Working.kept {done : Bool} (working : Working reserved dirty owner base s₀ s files arrays)
    (kept : Kept reserved dirty owner done s t) (layout : Layout reserved owner t.device t)
    (ready : Ready reserved dirty t) (handles : t.vars.handles = s.vars.handles)
    (mono : ∀ y, bitmapTest s.vars.freeMap y = true → bitmapTest t.vars.freeMap y = true) :
    Working reserved dirty owner base s₀ t files arrays := by
  have same (q : Nat) : inodeSector t q = inodeSector s q := by rw [inodeSector,handles,inodeSector]
  refine ⟨layout,ready,working.origin,handles ▸ working.live,fun q member => ?_,working.sub,fun z inside => ?_,
    fun q member => ?_,fun q first r second equal => ?_⟩
  · rw [same]
    exact mono _ (working.marked q (handles ▸ member))
  · obtain ⟨inode,bytes⟩ := working.still z inside
    have owns := working.sub z inside
    rw [kept.inodes z owns,kept.files z owns]
    exact ⟨inode,bytes⟩
  · have file := working.file q member
    exact file.kept (fun _ owns => owns) (by rw [handles]) (by rw [handles]) (by rw [handles])
      (kept.inodes _ file.owns) (kept.files _ file.owns)
  · rw [same,same] at equal
    exact working.distinct q first r second equal

/-- A new file is opened. -/
theorem Working.openNew {x : Nat} (working : Working reserved dirty owner base s₀ s files arrays)
    (layout : Layout reserved (fun z => owner z ∨ z = x) s.device s) (other : ¬owner x)
    (marked : bitmapTest s.vars.freeMap x = true) (length : Int)
    (zeros : contents (s.device x) s.device = List.replicate length.toNat 0) :
    Working reserved dirty (fun z => owner z ∨ z = x) base s₀
      (withHandles s (s.vars.handles.openInode x (s.device x))) (s.vars.handles.inodes.next :: files)
      (addArray arrays (some s.vars.handles.inodes.next) length) := by
  generalize after : withHandles s (s.vars.handles.openInode x (s.device x)) = t
  have holds := holds_openInode s working.live x
  rw [after] at holds
  have opened : inodeSector t s.vars.handles.inodes.next = x := congrArg Inode.sector holds.inode_eq
  have cell (q : Nat) (ne : q ≠ s.vars.handles.inodes.next) :
      t.vars.handles.inodes.cell q = s.vars.handles.inodes.cell q := by
    rw [← after]
    exact (ObjectHeap.alloc_cell _ _ _).trans (if_neg ne)
  have old (q : Nat) (member : q ∈ files) : q ≠ s.vars.handles.inodes.next :=
    Nat.ne_of_lt (ObjectHeap.lt_next _ q _ (working.file q member).holds.cell)
  have same (q : Nat) (ne : q ≠ s.vars.handles.inodes.next) : inodeSector t q = inodeSector s q :=
    congrArg Inode.sector (inode_congr (cell q ne))
  have device : t.device = s.device := by rw [← after]; rfl
  refine ⟨?_,?_,working.origin,?_,fun q member => ?_,fun z inside => Or.inl (working.sub z inside),fun z inside => ?_,
    fun q member => ?_,fun q first r second equal => ?_⟩
  · rw [← after]
    exact layout.congr rfl rfl
  · rw [← after]
    exact working.ready.openInode working.live x _
  · rw [← after]
    exact working.live.openInode x _
  · have bits : t.vars.freeMap = s.vars.freeMap := by rw [← after]; rfl
    have list : t.vars.handles.openInodes = s.vars.handles.inodes.next :: s.vars.handles.openInodes := by
      rw [← after]; rfl
    rw [bits]
    by_cases new : q = s.vars.handles.inodes.next
    · rw [new,opened]
      exact marked
    · rw [same q new]
      rw [list,List.mem_cons] at member
      exact working.marked q (member.resolve_left new)
  · rw [device]
    exact working.still z inside
  · rcases List.mem_cons.mp member with rfl | member
    · refine ⟨?_,?_,?_,?_⟩
      · rw [opened,holds.inode_eq,device]
        exact holds
      · rw [opened]
        exact Or.inr rfl
      · rw [opened]
        exact fun inside => other (working.sub x inside)
      · rw [opened,device,zeros,addArray,if_pos rfl]
    · have ne := old q member
      have file := working.file q member
      have array : addArray arrays (some s.vars.handles.inodes.next) length q = arrays q :=
        if_neg fun equal => ne (Option.some.inj equal).symm
      rw [array]
      exact file.kept (fun _ owns => Or.inl owns) (cell q ne) (by rw [← after]; rfl) (by rw [← after]; rfl)
        (by rw [device]) (by rw [device])
  · have apart (q : Nat) (member : q ∈ files) : inodeSector s q ≠ x := fun here =>
      other (here ▸ (working.file q member).owns)
    rcases List.mem_cons.mp first with rfl | first <;> rcases List.mem_cons.mp second with rfl | second
    · rfl
    · rw [opened,same r (old r second)] at equal
      exact absurd equal.symm (apart r second)
    · rw [opened,same q (old q first)] at equal
      exact absurd equal (apart q first)
    · rw [same q (old q first),same r (old r second)] at equal
      exact working.distinct q first r second equal

/-- How `inode_create` on a sector just allocated ends: with a file of zeros, or with no
trace in the files that are there. -/
theorem Working.create {x : Nat} (working : Working reserved dirty owner base s₀ s files arrays)
    (unowned : Unowned reserved owner s.device s x) (marked : bitmapTest s.vars.freeMap x = true) (length : Int)
    (isDir : Bool) (low : -2147483648 ≤ length) (high : length < 2147483648) :
    ∃ t, t.vars.handles = s.vars.handles ∧ Working reserved dirty owner base s₀ t files arrays ∧
      ((inodeCreate x length isDir).exec s = (false,t) ∨ (inodeCreate x length isDir).exec s = (true,t) ∧
        Layout reserved (fun z => owner z ∨ z = x) t.device t ∧ bitmapTest t.vars.freeMap x = true ∧
        contents (t.device x) t.device = List.replicate length.toNat 0) := by
  rcases Int.lt_or_le length 0 with negative | natural
  · exact ⟨s,rfl,working,Or.inl (inodeCreate_negative x length isDir negative low s)⟩
  · obtain ⟨done,t,run,outcome⟩ := inodeCreate_spec working.layout working.ready working.origin unowned marked length
      isDir natural high
    have kept := Kept.of_aside outcome.aside unowned.other
    have after (layout : Layout reserved owner s.device t) : Working reserved dirty owner base s₀ t files arrays :=
      working.kept kept (kept.layout layout) outcome.ready outcome.allocated.handles outcome.allocated.mono
    refine ⟨t,outcome.allocated.handles,?_⟩
    by_cases success : done = true ∧ length ≤ 8517120
    · obtain ⟨rfl,small⟩ := success
      obtain ⟨d,-,-,-,disk,layout,zeros⟩ := outcome.made rfl small
      have apart (z : Nat) (owns : owner z) : z ≠ x := fun same => unowned.other (same ▸ owns)
      have wide : Layout reserved (fun z => owner z ∨ z = x) t.device t := by
        refine layout.image fun z inside => ?_
        rcases inside with inside | rfl
        · rw [Function.update_of_ne (apart z inside),kept.inodes z inside]
        · rw [Function.update_self,disk]
      rw [run,decide_eq_true small]
      exact ⟨working.kept kept (wide.drop (Or.inr rfl) (fun _ inside => Or.inl inside) unowned.other).1 outcome.ready
          outcome.allocated.handles outcome.allocated.mono,
        Or.inr ⟨rfl,wide,outcome.allocated.mono x marked,by rw [disk,zeros]⟩⟩
    · have refused : (done && decide (length ≤ 8517120)) = false := by
        rw [Bool.and_eq_false_iff,decide_eq_false_iff_not]
        exact (Bool.eq_false_or_eq_true done).symm.imp id fun complete small => success ⟨complete,small⟩
      rw [run,refused]
      exact ⟨after (outcome.failed ((Bool.eq_false_or_eq_true done).symm.imp id fun complete =>
        Int.not_le.mp fun small => success ⟨complete,small⟩)),Or.inl rfl⟩

theorem Working.newFile (working : Working reserved dirty owner base s₀ s files arrays) (length : Int) (isDir : Bool)
    (low : -2147483648 ≤ length) (high : length < 2147483648) :
    ∃ wide, Working reserved dirty wide base s₀ ((newFile length isDir).exec s).2
      (((newFile length isDir).exec s).1.toList ++ files) (addArray arrays ((newFile length isDir).exec s).1 length) := by
  have none : addArray arrays none length = arrays := funext fun q => if_neg (Option.some_ne_none q).symm
  unfold FS.newFile
  rcases working.layout.allocate working.ready isWrite_inodeWriteAt with
    ⟨x,t,run,allocated,ready,after,aside,out⟩ | ⟨run,-⟩
  · have kept := Kept.of_aside aside out.unowned.other
    have working' := working.kept kept (kept.layout after) ready allocated.handles allocated.mono
    have unowned := out.unowned.kept kept
    obtain ⟨u,handles,working'',failed | ⟨created,layout,marked,zeros⟩⟩ := working'.create unowned out.marked length isDir
      low high
    · simp only [Task.exec_bind,run,failed,Bool.false_eq_true,if_false,Task.exec_pure]
      rw [none]
      exact ⟨owner,working''⟩
    · have absent : u.vars.handles.Unopened x := fun q member here => by
        rw [handles,allocated.handles] at member here
        have before := working.marked q member
        rw [inodeSector,here,out.clear] at before
        exact absurd before Bool.false_ne_true
      simp only [Task.exec_bind,run,created,if_true,exec_inodeOpen_new u x absent,Task.exec_pure]
      exact ⟨_,working''.openNew layout unowned.other marked length zeros⟩
  · simp only [Task.exec_bind,run,Task.exec_pure]
    rw [none]
    have kept : Kept reserved dirty owner true s ⟨{s.vars with allocations := s.vars.allocations ++ [Option.none]},s.device⟩ :=
      Kept.of_device rfl
    exact ⟨owner,working.kept kept (working.layout.congr rfl rfl) (working.ready.vars _ rfl rfl rfl) rfl fun _ marked => marked⟩

theorem setData_sector (h : Handles) (p q : Nat) (d : Sector) : ((h.setData p d).inode q).sector = (h.inode q).sector := by
  unfold Handles.setData Handles.inode ObjectHeap.deref
  rw [ObjectHeap.modify_cell]
  split
  · rename_i here
    rw [here]
    cases h.inodes.cell p <;> rfl
  · rfl

theorem Live.setData {h : Handles} (live : Live h) (p : Nat) (d : Sector) : Live (h.setData p d) := by
  intro f pointer
  obtain ⟨i,cell⟩ := live f pointer
  change ∃ i, (h.inodes.modify p _).cell (h.file f).inode = some i
  rw [ObjectHeap.modify_cell]
  split
  · rename_i here
    rw [← here,cell]
    exact ⟨_,rfl⟩
  · exact ⟨i,cell⟩

/-- A write that stored everything. -/
theorem Working.write {buffer : List Byte} {ofs n : Nat} {d : Sector}
    (working : Working reserved dirty owner base s₀ s files arrays) (member : p ∈ files) (inside : ofs + n ≤ 8517120)
    (outcome : WriteOutcome reserved dirty owner s.device s t p (inodeSector s p) buffer ofs n true d) :
    Working reserved dirty owner base s₀ t files (Function.update arrays p (arrayWrite (arrays p) buffer ofs n)) := by
  have file := working.file p member
  obtain ⟨layout,bytes,own⟩ := outcome.written rfl inside
  have disk := own rfl
  have same (q : Nat) : inodeSector t q = inodeSector s q := by
    rw [inodeSector,outcome.handles,setData_sector,inodeSector]
  have apart (z : Nat) (inside : base z) : z ≠ inodeSector s p := fun here => file.apart (here ▸ inside)
  refine ⟨layout.image fun z inside => ?_,outcome.ready,working.origin,?_,fun q opened => ?_,working.sub,fun z inside => ?_,
    fun q listed => ?_,fun q first r second equal => ?_⟩
  · by_cases here : z = inodeSector s p
    · rw [here,disk,Function.update_self]
    · rw [Function.update_of_ne here,outcome.aside.inodes z inside here]
  · rw [outcome.handles]
    exact working.live.setData p d
  · rw [outcome.handles] at opened
    rw [same]
    exact outcome.marks.mono _ (working.marked q opened)
  · obtain ⟨inode,array⟩ := working.still z inside
    have owns := working.sub z inside
    rw [outcome.aside.inodes z owns (apart z inside),outcome.aside.files z owns (apart z inside)]
    exact ⟨inode,array⟩
  · by_cases here : q = p
    · rw [here,Function.update_self]
      have cell : t.vars.handles.inodes.cell p = some {s.vars.handles.inode p with data := d} := by
        rw [outcome.handles]
        exact (ObjectHeap.modify_cell _ _ _ _).trans ((if_pos rfl).trans (congrArg _ file.holds.cell))
      have inode : t.vars.handles.inode p = {s.vars.handles.inode p with data := d} := ObjectHeap.deref_of_cell _ _ _ cell
      refine ⟨⟨cell.trans (congrArg some inode.symm),rfl,?_,?_,fun f pointer => ?_⟩,?_,?_,?_⟩
      · rw [same,inode,disk]
      · rw [inode]
        exact file.holds.writable
      · rw [outcome.handles] at pointer ⊢
        exact file.holds.other f pointer
      · rw [same]
        exact file.owns
      · rw [same]
        exact file.apart
      · rw [same,disk,bytes,file.array]
    · rw [Function.update_of_ne here]
      have other := working.file q listed
      have ne : inodeSector s q ≠ inodeSector s p := fun equal => here (working.distinct q listed p member equal)
      refine other.kept (fun _ owns => owns) ?_ (by rw [outcome.handles]; rfl) (by rw [outcome.handles]; rfl)
        (outcome.aside.inodes _ other.owns ne) (outcome.aside.files _ other.owns ne)
      rw [outcome.handles]
      exact (ObjectHeap.modify_cell _ _ _ _).trans (if_neg here)
  · rw [same,same] at equal
    exact working.distinct q first r second equal

/-- A read of the part of a file that there is. -/
theorem Working.read (working : Working reserved dirty owner base s₀ s files arrays) (member : p ∈ files) (size ofs : Nat) :
    (inodeReadAt p size ofs).exec s = (arrayRead (arrays p) ofs size,s) := by
  have file := working.file p member
  rw [inodeReadAt_spec working.layout file.owns p file.holds.data,file.array]

/-- A run over open files keeps all of them. -/
theorem Working.worked {u v : FileSys} (start : Working reserved dirty owner base (volume u) (volume u) [] fun _ => [])
    (run : Worked u v files arrays) : ∃ wide, Working reserved dirty wide base (volume u) (volume v) files arrays := by
  induction run with
  | start => exact ⟨owner,start⟩
  | create before length isDir low high ih =>
    obtain ⟨wide,working⟩ := ih
    have after := working.newFile length isDir low high
    rw [exec_volume] at after
    exact after
  | @write s files arrays before p member buffer size offset some low limit complete ih =>
    obtain ⟨wide,working⟩ := ih
    obtain ⟨n,rfl⟩ := Int.eq_ofNat_of_zero_le (show 0 ≤ size by omega)
    obtain ⟨ofs,rfl⟩ := Int.eq_ofNat_of_zero_le low
    have file := working.file p member
    obtain ⟨write,isWrite,step⟩ := inodeWriteAt_step (volume s)
    obtain ⟨done,t,d,run,outcome⟩ := writeStep_spec isWrite working.layout working.ready working.origin file.owns file.holds
      buffer ofs n (by omega) (by omega)
    rw [← step,exec_volume] at run
    obtain ⟨returned,after⟩ := Prod.mk.inj run
    rw [complete] at returned
    have success : done = true ∧ ofs + n ≤ 8517120 := by
      by_contra failed
      rw [if_neg failed] at returned
      omega
    obtain ⟨rfl,inside⟩ := success
    rw [after]
    exact ⟨wide,working.write member inside outcome⟩
  | @read s files arrays before p member size offset some low limit ih =>
    obtain ⟨wide,working⟩ := ih
    obtain ⟨n,rfl⟩ := Int.eq_ofNat_of_zero_le (show 0 ≤ size by omega)
    obtain ⟨ofs,rfl⟩ := Int.eq_ofNat_of_zero_le low
    have reading := working.read member n ofs
    rw [exec_volume] at reading
    rw [(Prod.mk.inj reading).2]
    exact ⟨wide,working⟩

/-- There is room for a new file. -/
theorem Working.newFile_some (working : Working reserved dirty owner base s₀ s files arrays) (length : Int)
    (natural : 0 ≤ length) (limit : length ≤ 8517120) (room : 1 + blocksFor length ≤ s.vars.freeMap.clearCount) :
    ∃ inode, ((FS.newFile length false).exec s).1 = some inode := by
  unfold FS.newFile
  rcases working.layout.allocate working.ready isWrite_inodeWriteAt with
    ⟨x,t,run,allocated,ready,after,aside,out⟩ | ⟨-,full⟩
  · obtain ⟨u,handles,created⟩ := createBlocks_spec allocated ready after aside out working.origin
      (show -2147483648 ≤ length by omega) (by omega)
    rw [if_pos ⟨natural,room,limit⟩] at created
    have absent : u.vars.handles.Unopened x := fun q member here => by
      rw [handles] at member here
      have before := working.marked q member
      rw [inodeSector,here,out.clear] at before
      exact absurd before Bool.false_ne_true
    simp only [Task.exec_bind,run,created.1,if_true,exec_inodeOpen_new u x absent,Task.exec_pure]
    exact ⟨_,rfl⟩
  · omega

end

/-- How a write of the first `n` bytes of a buffer at `ofs` changes an array of bytes. -/
structure Overwritten (before after buffer : List Byte) (ofs n : Nat) : Prop where
  length : after.length = max before.length (ofs + n)
  stored : ∀ i < n, after.getD (ofs + i) 0 = buffer.getD i 0
  gap : ∀ i, before.length ≤ i → i < ofs → after.getD i 0 = 0
  kept : ∀ i < before.length, i < ofs ∨ ofs + n ≤ i → after.getD i 0 = before.getD i 0

theorem arrayWrite_overwritten (a buffer : List Byte) (ofs n : Nat) : Overwritten a (arrayWrite a buffer ofs n) buffer ofs n := by
  have byte (i : Nat) (inside : i < max a.length (ofs + n)) : (arrayWrite a buffer ofs n).getD i 0 =
      if ofs ≤ i ∧ i < ofs + n then buffer.getD (i - ofs) 0 else a.getD i 0 := by
    rw [← length_arrayWrite a buffer ofs n] at inside
    rw [List.getD_eq_getElem _ _ inside,getElem_arrayWrite]
  refine ⟨length_arrayWrite a buffer ofs n,fun i inside => ?_,fun i above below => ?_,fun i inside outside => ?_⟩
  · rw [byte _ (by omega),if_pos (by omega),Nat.add_sub_cancel_left]
  · by_cases inside : i < max a.length (ofs + n)
    · rw [byte i inside,if_neg (by omega),List.getD_eq_default _ _ above]
    · exact List.getD_eq_default _ _ (by rw [length_arrayWrite]; omega)
  · rw [byte i (by omega),if_neg (by omega)]

/-- The open files of a run are the arrays of bytes that it stands for, and the files that
were there before stay as they are. A complete write changes one array alone. -/
theorem files_are_arrays (c : CacheStore) (fits : Formattable c.cache.fsDevice.size) {s₀ s : FileSys}
    (reached : Reached (formatted c) s₀) {files : List Nat} {arrays : Nat → List Byte} (run : Worked s₀ s files arrays) :
    (∀ p ∈ files, fileArray (volume s) p = arrays p ∧ (s.vars.handles.inode p).data.length = (arrays p).length) ∧
      (∀ z, Owns (rootArray (volume s₀)) z → contents ((volume s).device z) (volume s).device =
        contents ((volume s₀).device z) (volume s₀).device) ∧
      ∀ p ∈ files, ∀ size offset : Nat, 1 ≤ size → offset + size ≤ 8517120 →
        ((inodeReadAt p size offset).exec s).1 = ((arrays p).drop offset).take size ∧
          ∀ buffer, ((inodeWriteAt p buffer size offset).exec s).1 = size →
            Overwritten (arrays p) (fileArray (volume ((inodeWriteAt p buffer size offset).exec s).2) p) buffer offset size ∧
            (∀ q ∈ files, q ≠ p → fileArray (volume ((inodeWriteAt p buffer size offset).exec s).2) q = arrays q) ∧
            ∀ z, Owns (rootArray (volume s₀)) z →
              contents ((volume ((inodeWriteAt p buffer size offset).exec s).2).device z)
                  (volume ((inodeWriteAt p buffer size offset).exec s).2).device =
                contents ((volume s₀).device z) (volume s₀).device := by
  obtain ⟨reserved,dirty,sane⟩ := formatted_sane c fits
  have start := (sane.reached reached).mounted.working
  obtain ⟨wide,working⟩ := Working.worked start run
  refine ⟨fun p member => ⟨(working.file p member).fileArray_eq,?_⟩,fun z inside => (working.still z inside).2,
    fun p member size offset some limit => ⟨?_,fun buffer complete => ?_⟩⟩
  · have file := working.file p member
    have data : (s.vars.handles.inode p).data = (volume s).device (inodeSector (volume s) p) := file.holds.data
    rw [data,← file.array,length_contents]
    exact (Int.toNat_of_nonneg (working.layout.natural _ file.owns)).symm
  · have reading := working.read member size offset
    rw [exec_volume] at reading
    exact (Prod.mk.inj reading).1
  · obtain ⟨_,after⟩ := Working.worked start (run.write member buffer size offset (by omega) (by omega) (by omega) complete)
    refine ⟨?_,fun q listed ne => ?_,fun z inside => (after.still z inside).2⟩
    · rw [(after.file p member).fileArray_eq,Function.update_self,Int.toNat_natCast,Int.toNat_natCast]
      exact arrayWrite_overwritten _ _ _ _
    · rw [(after.file q listed).fileArray_eq,Function.update_of_ne ne]

/-- A file of 5 bytes on the new device, and a byte written to it. -/
theorem blankStore_arrays : ∃ (s : FileSys) (p : Nat) (arrays : Nat → List Byte),
    Worked (formatted blankStore) s [p] arrays ∧ ((inodeReadAt p 2 2).exec s).1 = [7,0] := by
  have work {reserved dirty : Nat → Prop} (s₀ : FileSys) (mounted : Mounted reserved dirty (volume s₀))
      (room : 1 + blocksFor 5 ≤ (volume s₀).vars.freeMap.clearCount) :
      ∃ s p arrays, Worked s₀ s [p] arrays ∧ arrays p = arrayWrite (List.replicate 5 0) [7] 2 1 := by
    obtain ⟨p,created⟩ := mounted.working.newFile_some 5 (by decide) (by decide) room
    rw [exec_volume] at created
    have before := (Worked.start : Worked s₀ s₀ [] fun _ => []).create 5 false (by decide) (by decide)
    obtain ⟨wide,working⟩ := Working.worked mounted.working before
    rw [created] at before working
    generalize ((newFile 5 false).exec s₀).2 = s at before working
    have file := working.file p (List.mem_singleton_self p)
    obtain ⟨write,-,step⟩ := inodeWriteAt_step (volume s)
    have length := congrArg List.length file.array
    rw [length_contents,addArray,if_pos rfl,List.length_replicate] at length
    obtain ⟨mem,run,-⟩ := writeStep_short write working.layout working.ready file.owns file.holds [7] 2 1 (by decide) (by
      have natural := working.layout.natural _ file.owns
      omega)
    rw [← step,exec_volume] at run
    exact ⟨_,p,_,before.write (List.mem_singleton_self p) [7] 1 2 (by decide) (by decide) (by decide) (Prod.mk.inj run).1,
      by rw [Function.update_self,addArray,if_pos rfl]; rfl⟩
  obtain ⟨reserved,dirty,sane⟩ := formatted_sane blankStore blankStore_formattable
  have room : blocksFor 5 ≤ blocksFor 5000 := by decide
  obtain ⟨s,p,arrays,run,array⟩ := work (formatted blankStore) sane.mounted (by
    have clear := formatted_blankStore_clear.1
    generalize blocksFor 5000 = k at room clear
    omega)
  have reading := ((files_are_arrays blankStore blankStore_formattable .start run).2.2 p (List.mem_singleton_self p) 2 2
    (by decide) (by decide)).1
  rw [array] at reading
  exact ⟨s,p,arrays,run,reading.trans (by decide)⟩

end MyShell.FS
