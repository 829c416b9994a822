import MyShell.FS.Root
import MyShell.FS.Removal

/-! The stages of `filesys_create` inside the open root directory: which of them fails
depends on the free sectors, the size and the name only, and so does what it leaks. -/
namespace MyShell.FS
open BlockProgram PointerForest Bitmap

/-- The inodes and contents of all files are what they were, and so is what is reserved. -/
structure Kept (reserved dirty owner : Nat → Prop) (done : Bool) (s t : Volume) : Prop where
  inodes : ∀ z, owner z → t.device z = s.device z
  system : ∀ y, reserved y → ¬dirty y → (done = true ∨ y ≠ 0) → t.device y = s.device y
  files : ∀ z, owner z → contents (s.device z) t.device = contents (s.device z) s.device

/-- What the history variable and the other globals say of a run. -/
structure Logged (s t : Volume) (done : Bool) : Prop where
  panics : t.vars.panics = s.vars.panics
  size : t.vars.freeMap.bitCnt = s.vars.freeMap.bitCnt
  log : ∃ new, t.vars.allocations = s.vars.allocations ++ new ∧ (none ∈ new ↔ done = false) ∧
    ∀ x, some x ∈ new → bitmapTest s.vars.freeMap x = false

/-- A run that fails and leaves `leaked` sectors marked that nobody owns. -/
structure Refused (reserved dirty owner : Nat → Prop) (s t : Volume) (done : Bool) (leaked : Nat) : Prop where
  layout : Layout reserved owner t.device t
  ready : Ready reserved dirty t
  kept : Kept reserved dirty owner done s t
  logged : Logged s t done
  mono : ∀ y, bitmapTest s.vars.freeMap y = true → bitmapTest t.vars.freeMap y = true
  count : t.vars.freeMap.clearCount + leaked = s.vars.freeMap.clearCount

/-- The same before the sector `x` of the new inode is given back. -/
structure Stuck (reserved dirty owner : Nat → Prop) (s t : Volume) (done : Bool) (leaked x : Nat) : Prop where
  layout : Layout reserved owner t.device t
  ready : Ready reserved dirty t
  kept : Kept reserved dirty owner done s t
  marks : Marks s t done
  unowned : Unowned reserved owner t.device t x
  clear : bitmapTest s.vars.freeMap x = false
  marked : bitmapTest t.vars.freeMap x = true
  count : t.vars.freeMap.clearCount + leaked + 1 = s.vars.freeMap.clearCount

section
variable {reserved dirty owner wide : Nat → Prop} {s t u : Volume} {x : Nat} {done more : Bool} {leaked : Nat}

theorem Kept.of_aside (aside : Aside reserved dirty owner s.device x done s t) (other : ¬owner x) :
    Kept reserved dirty owner done s t :=
  ⟨fun z inside => aside.inodes z inside fun same => other (same ▸ inside),aside.system,
    fun z inside => aside.files z inside fun same => other (same ▸ inside)⟩

theorem Kept.of_device (device : t.device = s.device) : Kept reserved dirty owner done s t := by
  refine ⟨fun z _ => ?_,fun y _ _ _ => ?_,fun z _ => ?_⟩ <;> rw [device]

theorem Kept.trans (first : Kept reserved dirty owner done s t) (second : Kept reserved dirty owner more t u) :
    Kept reserved dirty owner (done && more) s u := by
  refine ⟨fun z inside => (second.inodes z inside).trans (first.inodes z inside),fun y taken clean allowed => ?_,
    fun z inside => ?_⟩
  · rw [Bool.and_eq_true] at allowed
    exact (second.system y taken clean (allowed.imp_left And.right)).trans
      (first.system y taken clean (allowed.imp_left And.left))
  · have later := second.files z inside
    rw [first.inodes z inside] at later
    exact later.trans (first.files z inside)

theorem Kept.sub (kept : Kept reserved dirty wide done s t) (sub : ∀ z, owner z → wide z) :
    Kept reserved dirty owner done s t :=
  ⟨fun z inside => kept.inodes z (sub z inside),kept.system,fun z inside => kept.files z (sub z inside)⟩

/-- The images of the inodes are those on the device as before. -/
theorem Kept.layout (kept : Kept reserved dirty owner done s t) (layout : Layout reserved owner s.device t) :
    Layout reserved owner t.device t := layout.image kept.inodes

theorem Unowned.aside (unowned : Unowned reserved owner s.device s x)
    (aside : Aside reserved dirty owner s.device x done s t) : Unowned reserved owner t.device t x := by
  refine ⟨unowned.free,unowned.other,fun z pointer path inside key => ?_⟩
  have other : z ≠ x := fun same => unowned.other (same ▸ inside)
  rw [aside.inodes z inside other,aside.trees z inside other pointer path key]
  exact unowned.apart z pointer path inside key

theorem Unowned.kept (unowned : Unowned reserved owner s.device t x) (kept : Kept reserved dirty owner done s t) :
    Unowned reserved owner t.device t x := by
  refine ⟨unowned.free,unowned.other,fun z pointer path inside key => ?_⟩
  rw [kept.inodes z inside]
  exact unowned.apart z pointer path inside key

theorem Marks.logged (marks : Marks s t done) : Logged s t done := ⟨marks.panics,marks.size,marks.log⟩

/-- The sector of the new inode is given back. -/
theorem Stuck.release (stuck : Stuck reserved dirty owner s t done leaked x) (origin : reserved 0) :
    ∃ v, (freeMapRelease inodeWriteAt x 1).exec t = ((),v) ∧ v.vars.handles = t.vars.handles ∧
      Refused reserved dirty owner s v done leaked := by
  have inside := stuck.ready.inside x stuck.marked
  have able : Releasable reserved t x :=
    ⟨stuck.marked,fun null => stuck.unowned.free (null ▸ origin),stuck.unowned.free⟩
  obtain ⟨v,run,released⟩ := releases_one stuck.ready isWrite_inodeWriteAt x able
  obtain ⟨after,aside⟩ := stuck.layout.releases released fun y member => by
    rw [List.mem_singleton] at member
    exact member ▸ stuck.unowned
  have later := Kept.of_aside (aside x stuck.unowned.other) stuck.unowned.other
  have kept := stuck.kept.trans later
  rw [Bool.and_true] at kept
  have same (y : Nat) : bitmapTest v.vars.freeMap y = bitmapTest (bitmapSet t.vars.freeMap x false) y := by
    rw [Bool.eq_iff_iff,released.marks,test_set _ stuck.ready.packed.length _ _ _ inside]
    by_cases here : y = x <;> simp [here]
  have counts : v.vars.freeMap.clearCount = (bitmapSet t.vars.freeMap x false).clearCount := by
    unfold clearCount bitmapCount bitmapSize
    rw [released.size,set_bitCnt]
    simp only [same]
  have gained := clearCount_reset t.vars.freeMap stuck.ready.packed.length x inside stuck.marked
  have total := stuck.count
  refine ⟨v,run,released.handles,later.layout after,released.ready,kept,
    ⟨released.panics.trans stuck.marks.panics,released.size.trans stuck.marks.size,?_⟩,fun y marked => ?_,by omega⟩
  · rw [released.log]
    exact stuck.marks.log
  · refine (released.marks y).mpr ⟨stuck.marks.mono y marked,fun member => ?_⟩
    rw [List.mem_singleton.mp member,stuck.clear] at marked
    exact Bool.false_ne_true marked

/-- The sectors that a file of that size needs besides its inode. -/
def blocksFor (size : Int) : Nat := (inodeReach (bytesToSectors size)).length

theorem need_le (d : Sector) (mem : Nat → Sector) (total : Nat) : need d mem total ≤ blocksFor total := by
  unfold need
  split
  · exact Nat.zero_le _
  · exact List.countP_le_length

/-- The sectors that the root directory lacks for one more entry. -/
def rootGrowth (mem : Nat → Sector) : Nat :=
  need (mem rootDirSector) mem (36 * freeSlot (contents (mem rootDirSector) mem) + 36)

/-- What `filesys_create` leaks with `free` free sectors when it fails, and none when it
does not fail: the first stage that fails decides. -/
def createLeak (free : Nat) (size : Int) (badName : Prop) [Decidable badName] (slot growth : Nat) : Option Nat :=
  if free = 0 ∨ size < 0 then some 0
  else if free < 1 + blocksFor size then some (free - 1)
  else if 8517120 < size ∨ badName then some (blocksFor size)
  else if free < 1 + blocksFor size + growth then some (free - 1)
  else if 8517120 < 36 * slot + 36 then some (blocksFor size)
  else none

/-- The stages succeed: a file of zeros at `x`, entered in the root directory. -/
structure Made (reserved dirty owner : Nat → Prop) (s t : Volume) (x : Nat) (name : CString) (size : Int) : Prop where
  layout : Layout reserved (fun z => owner z ∨ z = x) t.device t
  ready : Ready reserved dirty t
  marks : Marks s t true
  count : t.vars.freeMap.clearCount + (1 + blocksFor size + rootGrowth s.device) = s.vars.freeMap.clearCount
  system : ∀ y, reserved y → ¬dirty y → t.device y = s.device y
  inodes : ∀ z, owner z → z ≠ rootDirSector → t.device z = s.device z
  files : ∀ z, owner z → z ≠ rootDirSector → contents (s.device z) t.device = contents (s.device z) s.device
  root : contents (t.device rootDirSector) t.device =
    arrayWrite (contents (s.device rootDirSector) s.device) (newEntry name x).bytes
      (36 * freeSlot (contents (s.device rootDirSector) s.device)) 36
  length : (t.device x).length = size
  regular : (t.device x).isDir = false
  zeros : contents (t.device x) t.device = List.replicate size.toNat 0
  clear : bitmapTest s.vars.freeMap x = false
  trees : ∀ z, owner z → z ≠ rootDirSector → SameTree (s.device z) s.device t.device
  exact : ∀ y, bitmapTest t.vars.freeMap y = true → bitmapTest s.vars.freeMap y = true ∨
    y ∈ ownedSectors (t.device x) t.device x ∨ y ∈ ownedSectors (t.device rootDirSector) t.device rootDirSector
  fresh : ∀ pointer path, Key blocks height isPointer pointer path →
    node blocks t.device ((t.device x).word pointer) path ≠ 0 →
    bitmapTest s.vars.freeMap (node blocks t.device ((t.device x).word pointer) path) = false

theorem inodeCreate_negative (x : Nat) (size : Int) (isDir : Bool) (negative : size < 0) (bound : -2147483648 ≤ size)
    (s : Volume) : (inodeCreate x size isDir).exec s = (false,s) := by
  have length := length_newInodeDisk size isDir bound (by omega)
  unfold inodeCreate inodeAllocate inodeReserve
  rw [length,if_pos negative]
  simp only [Task.exec_bind,Task.exec_pure,Bool.false_eq_true,if_false]

/-- The inode at `x` was allocated and created, but is not entered anywhere yet. -/
structure Filled (reserved dirty owner : Nat → Prop) (s t : Volume) (x : Nat) (size : Int) : Prop where
  layout : Layout reserved (fun z => owner z ∨ z = x) t.device t
  ready : Ready reserved dirty t
  kept : Kept reserved dirty owner true s t
  trees : ∀ z, owner z → SameTree (s.device z) s.device t.device
  marks : Marks s t true
  handles : t.vars.handles = s.vars.handles
  length : (t.device x).length = size
  regular : (t.device x).isDir = false
  zeros : contents (t.device x) t.device = List.replicate size.toNat 0
  other : ¬owner x
  clear : bitmapTest s.vars.freeMap x = false
  marked : bitmapTest t.vars.freeMap x = true
  count : t.vars.freeMap.clearCount + blocksFor size + 1 = s.vars.freeMap.clearCount
  gains : Gains s t Sector.zeros (t.device x) x

theorem Gains.zeros {d : Sector} (gains : Gains s t Sector.zeros d x) (pointer : Nat) (path : List Nat)
    (key : Key blocks height isPointer pointer path) (present : node blocks t.device (d.word pointer) path ≠ 0) :
    bitmapTest s.vars.freeMap (node blocks t.device (d.word pointer) path) = false := by
  rcases gains.fresh pointer path key present with null | clear
  · rw [Sector.word_zeros,node_null] at null
    exact absurd null present
  · exact clear

/-- The sector of the inode itself comes first. -/
theorem Gains.after_allocate {d : Sector} (out : HandedOut reserved owner s.device s t x)
    (mono : ∀ y, bitmapTest s.vars.freeMap y = true → bitmapTest t.vars.freeMap y = true)
    (gains : Gains t u Sector.zeros d x) : Gains s u Sector.zeros d x := by
  refine ⟨fun pointer path _ present => absurd (by rw [Sector.word_zeros,node_null]) present,fun y marked => ?_,
    fun pointer path key present => Or.inr ?_⟩
  · rcases gains.exact y marked with before | block
    · rcases out.others y before with rfl | old
      · exact Or.inr List.mem_cons_self
      · exact Or.inl old
    · exact Or.inr block
  · have clear := gains.zeros pointer path key present
    cases before : bitmapTest s.vars.freeMap (node blocks u.device (d.word pointer) path) with
    | false => rfl
    | true =>
      rw [mono _ before] at clear
      contradiction

/-- The new inode is given up. -/
theorem Filled.stuck {size : Int} (filled : Filled reserved dirty owner s t x size) :
    Stuck reserved dirty owner s t true (blocksFor size) x := by
  obtain ⟨layout,unowned⟩ := filled.layout.drop (Or.inr rfl) (fun _ inside => Or.inl inside) filled.other
  exact ⟨layout,filled.ready,filled.kept,filled.marks,unowned,filled.clear,filled.marked,filled.count⟩

/-- `inode_create` on the sector just allocated. -/
theorem createBlocks_spec {size : Int} (allocated : Allocated s t true 1) (ready : Ready reserved dirty t) (after : Layout reserved owner s.device t)
    (aside : Aside reserved dirty owner s.device x true s t) (out : HandedOut reserved owner s.device s t x)
    (origin : reserved 0) (low : -2147483648 ≤ size) (high : size < 2147483648) :
    ∃ v, v.vars.handles = s.vars.handles ∧
      if 0 ≤ size ∧ 1 + blocksFor size ≤ s.vars.freeMap.clearCount ∧ size ≤ 8517120 then
        (inodeCreate x size false).exec t = (true,v) ∧ Filled reserved dirty owner s v x size
      else (inodeCreate x size false).exec t = (false,v) ∧ ∃ done, Stuck reserved dirty owner s v done
        (if size < 0 then 0 else if s.vars.freeMap.clearCount < 1 + blocksFor size then s.vars.freeMap.clearCount - 1
          else blocksFor size) x := by
  have kept := Kept.of_aside aside out.unowned.other
  have here := kept.layout after
  have count := allocated.count rfl
  have unowned := out.unowned.kept kept
  by_cases negative : size < 0
  · refine ⟨t,allocated.handles,?_⟩
    rw [if_neg (by omega),if_pos negative]
    exact ⟨inodeCreate_negative x size false negative low t,true,here,ready,kept,allocated.toMarks,unowned,out.clear,
      out.marked,by omega⟩
  · obtain ⟨done,v,run,outcome⟩ := inodeCreate_spec here ready origin unowned out.marked size false (by omega) high
    have kept' := kept.trans (Kept.of_aside outcome.aside unowned.other)
    rw [Bool.true_and] at kept'
    have marks := allocated.toMarks.trans outcome.allocated.toMarks
    have marked := outcome.allocated.mono x out.marked
    have unowned' := unowned.aside outcome.aside
    have handles := outcome.allocated.handles.trans allocated.handles
    refine ⟨v,handles,?_⟩
    by_cases success : done = true ∧ size ≤ 8517120
    · obtain ⟨rfl,small⟩ := success
      have used := outcome.allocated.count rfl
      change _ + blocksFor size = _ at used
      rw [if_pos ⟨by omega,by omega,small⟩,run,decide_eq_true small]
      obtain ⟨d,length,regular,_,disk,wide,zeros⟩ := outcome.made rfl small
      refine ⟨rfl,wide.image ?_,outcome.ready,kept',?_,marks,handles,by rw [disk,length],by rw [disk,regular],
        by rw [disk,zeros],unowned.other,out.clear,marked,by omega,
        (outcome.gains rfl small).after_allocate out allocated.mono⟩
      · rintro z (inside | rfl)
        · have ne : z ≠ x := fun same => unowned.other (same ▸ inside)
          rw [Function.update_of_ne ne,outcome.aside.inodes z inside ne]
        · rw [Function.update_self,disk]
      · intro z inside pointer path key
        have ne : z ≠ x := fun same => unowned.other (same ▸ inside)
        have later := outcome.aside.trees z inside ne pointer path key
        rw [kept.inodes z inside] at later
        exact later.trans (aside.trees z inside ne pointer path key)
    · have back := kept'.layout ((outcome.failed (by
        cases done with
        | false => exact Or.inl rfl
        | true => exact Or.inr (by by_contra small; exact success ⟨rfl,by omega⟩))).image fun z inside =>
          (kept.inodes z inside).symm)
      have refused : (done && decide (size ≤ 8517120)) = false := by
        rw [Bool.and_eq_false_iff,decide_eq_false_iff_not]
        cases done with
        | false => exact Or.inl rfl
        | true => exact Or.inr fun small => success ⟨rfl,small⟩
      rw [refused] at run
      cases done with
      | false =>
        obtain ⟨empty,short⟩ := outcome.allocated.short rfl
        change _ < blocksFor size at short
        rw [if_neg (by omega),if_neg negative,if_pos (by omega)]
        exact ⟨run,false,back,outcome.ready,kept',marks,unowned',out.clear,marked,by omega⟩
      | true =>
        have used := outcome.allocated.count rfl
        change _ + blocksFor size = _ at used
        rw [if_neg (fun all => success ⟨rfl,all.2.2⟩),if_neg negative,if_neg (by omega)]
        exact ⟨run,true,back,outcome.ready,kept',marks,unowned',out.clear,marked,by omega⟩

/-- A directory as large as a file can be lacks no sectors. -/
theorem need_full (layout : Layout reserved owner s.device s) (owns : owner x)
    (full : 8517120 < 36 * freeSlot (contents (s.device x) s.device) + 36) :
    need (s.device x) s.device (36 * freeSlot (contents (s.device x) s.device) + 36) = 0 := by
  have slot := freeSlot_le (contents (s.device x) s.device)
  have limit := layout.limit x owns
  have size := layout.natCast owns
  unfold entryCount at slot
  rw [length_contents] at slot
  unfold need
  rw [if_neg (by omega)]
  apply List.countP_eq_zero.mpr
  intro k member
  rw [inodeReach_full _ (bytesToSectors (s.device x).length) (by rw [bytesToSectors_nat _ (by omega)]; omega)
    (by rw [← size,bytesToSectors_nat _ (by omega)]; omega)] at member
  simpa using layout.complete x owns k member

/-- `dir_add` of the new inode. -/
theorem addEntry_spec {size : Int} {p dir : Nat} {inode : Inode} (filled : Filled reserved dirty owner s t x size)
    (origin : reserved 0) (owns : owner rootDirSector) (holds : Holds s.device s p rootDirSector inode)
    (opened : (s.vars.handles.dir dir).inode = p) (stale : List Byte) (name : CString) :
    ∃ v d, v.vars.handles = s.vars.handles.setData p d ∧
      if ¬BadName (contents (s.device rootDirSector) s.device) name ∧
          1 + blocksFor size + rootGrowth s.device ≤ s.vars.freeMap.clearCount ∧
          36 * freeSlot (contents (s.device rootDirSector) s.device) + 36 ≤ 8517120 then
        (dirAdd stale dir name x false).exec t = (true,v) ∧ Made reserved dirty owner s v x name size
      else (dirAdd stale dir name x false).exec t = (false,v) ∧ ∃ done, Stuck reserved dirty owner s v done
        (if BadName (contents (s.device rootDirSector) s.device) name then blocksFor size
          else if s.vars.freeMap.clearCount < 1 + blocksFor size + rootGrowth s.device then s.vars.freeMap.clearCount - 1
          else blocksFor size) x := by
  have rootInode := filled.kept.inodes rootDirSector owns
  have rootFile := filled.kept.files rootDirSector owns
  have holds' : Holds t.device t p rootDirSector inode := by
    refine ⟨?_,holds.sector,holds.data.trans rootInode.symm,holds.writable,?_⟩
    · rw [filled.handles]
      exact holds.cell
    · rw [filled.handles]
      exact holds.other
  have array : contents (t.device rootDirSector) t.device = contents (s.device rootDirSector) s.device := by
    rw [rootInode,rootFile]
  have apart : x ≠ rootDirSector := fun same => filled.other (same ▸ owns)
  have added := dirAdd_spec stale filled.layout filled.ready origin (Or.inl owns) holds'
    (by rw [filled.handles]; exact opened) name x
  rw [array] at added
  have total := filled.count
  rcases added with ⟨bad,run⟩ | ⟨good,done,v,d,run,outcome⟩
  · refine ⟨t,s.device rootDirSector,filled.handles.trans holds.setData_self.symm,?_⟩
    rw [if_neg (fun all => all.1 bad),if_pos bad]
    exact ⟨run,true,filled.stuck⟩
  · have handles : v.vars.handles = s.vars.handles.setData p d := by
      rw [outcome.handles,filled.handles]
    have marks := filled.marks.trans outcome.marks
    have growth : need (t.device rootDirSector) t.device (36 * freeSlot (contents (s.device rootDirSector) s.device) + 36) =
        rootGrowth s.device := by
      unfold rootGrowth need
      rw [rootInode]
      split
      · rfl
      · apply List.countP_congr
        intro k member
        rw [filled.trees rootDirSector owns k.1 k.2 (inodeReach_key _ k member)]
    have counts := outcome.counts
    rw [growth] at counts
    refine ⟨v,d,handles,?_⟩
    by_cases success : done = true ∧ 36 * freeSlot (contents (s.device rootDirSector) s.device) + 36 ≤ 8517120
    · obtain ⟨rfl,small⟩ := success
      have used := counts.count rfl
      rw [if_pos ⟨good,by omega,small⟩,run,decide_eq_true small]
      obtain ⟨wide,bytes,disk⟩ := outcome.written rfl small
      have root := disk rfl
      have rest (z : Nat) (inside : owner z ∨ z = x) (ne : z ≠ rootDirSector) : v.device z = t.device z :=
        outcome.aside.inodes z inside ne
      have files (z : Nat) (inside : owner z ∨ z = x) (ne : z ≠ rootDirSector) :
          contents (t.device z) v.device = contents (t.device z) t.device := outcome.aside.files z inside ne
      have grown := outcome.gains rfl small
      have inode := rest x (Or.inr rfl) apart
      have tree := outcome.aside.trees x (Or.inr rfl) apart
      refine ⟨rfl,wide.image ?_,outcome.ready,marks,by omega,?_,?_,?_,?_,?_,?_,?_,filled.clear,?_,?_,?_⟩
      · intro z inside
        by_cases ne : z = rootDirSector
        · rw [ne,Function.update_self,root]
        · rw [Function.update_of_ne ne,rest z inside ne]
      · exact fun y taken clean => (outcome.aside.system y taken clean (Or.inl rfl)).trans
          (filled.kept.system y taken clean (Or.inl rfl))
      · exact fun z inside ne => (rest z (Or.inl inside) ne).trans (filled.kept.inodes z inside)
      · intro z inside ne
        have later := files z (Or.inl inside) ne
        rw [filled.kept.inodes z inside] at later
        exact later.trans (filled.kept.files z inside)
      · rw [root,bytes,array]
      · rw [rest x (Or.inr rfl) apart,filled.length]
      · rw [rest x (Or.inr rfl) apart,filled.regular]
      · rw [rest x (Or.inr rfl) apart,files x (Or.inr rfl) apart,filled.zeros]
      · intro z inside ne pointer path key
        have later := outcome.aside.trees z (Or.inl inside) ne pointer path key
        rw [filled.kept.inodes z inside] at later
        exact later.trans (filled.trees z inside pointer path key)
      · intro y marked
        rw [inode,ownedSectors_congr tree,root]
        rcases grown.exact y marked with before | block
        · exact (filled.gains.exact y before).imp id Or.inl
        · exact Or.inr (Or.inr block)
      · intro pointer path key present
        rw [inode,tree pointer path key] at present ⊢
        exact filled.gains.zeros pointer path key present
    · have stop : done = false ∨ 8517120 < 36 * freeSlot (contents (s.device rootDirSector) s.device) + 36 := by
        cases done with
        | false => exact Or.inl rfl
        | true => exact Or.inr (by by_contra small; exact success ⟨rfl,by omega⟩)
      have refused : (done && decide (36 * freeSlot (contents (s.device rootDirSector) s.device) + 36 ≤ 8517120)) = false := by
        rw [Bool.and_eq_false_iff,decide_eq_false_iff_not]
        exact stop.imp id Nat.not_le.mpr
      obtain ⟨wide,bytes,root⟩ := outcome.failed stop
      have kept : Kept reserved dirty (fun z => owner z ∨ z = x) done t v := by
        refine ⟨fun z inside => ?_,outcome.aside.system,fun z inside => ?_⟩
        · by_cases ne : z = rootDirSector
          · rw [ne,root]
          · exact outcome.aside.inodes z inside ne
        · by_cases ne : z = rootDirSector
          · rw [ne,bytes]
          · exact outcome.aside.files z inside ne
      obtain ⟨back,unowned⟩ := (kept.layout wide).drop (Or.inr rfl) (fun _ inside => Or.inl inside) filled.other
      have kept' := filled.kept.trans (kept.sub fun _ inside => Or.inl inside)
      have marked := outcome.marks.mono x filled.marked
      rw [refused] at run
      rw [Bool.true_and] at kept'
      cases done with
      | false =>
        obtain ⟨empty,short⟩ := counts.short rfl
        rw [if_neg (fun all => by have := all.2.1; omega),if_neg good,if_pos (by omega)]
        exact ⟨run,false,back,outcome.ready,kept',marks,unowned,filled.clear,marked,by omega⟩
      | true =>
        have used := counts.count rfl
        have none := need_full filled.layout (Or.inl owns)
        rw [array,growth] at none
        have none := none (stop.resolve_left (by decide))
        rw [if_neg (fun all => success ⟨rfl,all.2.2⟩),if_neg good,if_neg (by omega)]
        exact ⟨run,true,back,outcome.ready,kept',marks,unowned,filled.clear,marked,by omega⟩

end
end MyShell.FS
