import MyShell.FS.Undo
import Mathlib.Data.List.Find

/-! Creating files one after the other while the free sectors are one run up to the end, as
after formatting: each file takes the front of the run, first its inode and then its blocks. -/
namespace MyShell.FS
open BlockProgram PointerForest Bitmap

section
variable {reserved dirty owner : Nat → Prop} {s t : Volume} {m x p dir : Nat} {inode : Inode} {size : Int}

/-- The stages of a creation that succeeds. -/
theorem createInode_done {v : Volume} {stale : List Byte} {name : CString}
    (run : (createInode stale dir name size false).exec s = ((true,x),v)) :
    ∃ t u, (freeMapAllocate inodeWriteAt 1).exec s = (some x,t) ∧ (inodeCreate x size false).exec t = (true,u) ∧
      (dirAdd stale dir name x false).exec u = (true,v) := by
  unfold createInode at run
  rw [Task.exec_bind] at run
  generalize (freeMapAllocate inodeWriteAt 1).exec s = outcome at run ⊢
  obtain ⟨found,t⟩ := outcome
  cases found with
  | none => exact absurd (congrArg (fun r => r.1.1) run) Bool.false_ne_true
  | some y =>
    simp only [Task.exec_bind] at run
    generalize create : (inodeCreate y size false).exec t = outcome at run
    obtain ⟨created,u⟩ := outcome
    cases created with
    | false => exact absurd (congrArg (fun r => r.1.1) run) Bool.false_ne_true
    | true =>
      simp only [if_true,Task.exec_bind,Task.exec_pure] at run
      generalize add : (dirAdd stale dir name y false).exec u = outcome at run
      obtain ⟨added,w⟩ := outcome
      simp only [Prod.mk.injEq] at run
      obtain ⟨⟨rfl,rfl⟩,rfl⟩ := run
      exact ⟨t,u,rfl,create,add⟩

/-- The new inode is at the front of the run and its blocks follow it, when the root
directory has a slot for the entry. -/
theorem createInode_order {v : Volume} (layout : Layout reserved owner s.device s) (ready : Ready reserved dirty s)
    (origin : reserved 0) (owns : owner rootDirSector) (holds : Holds s.device s p rootDirSector inode)
    (opened : (s.vars.handles.dir dir).inode = p) (stale : List Byte) (name : CString) (low : -2147483648 ≤ size)
    (high : size < 2147483648) (front : FreeFrom s.vars.freeMap m) (growth : rootGrowth s.device = 0)
    (run : (createInode stale dir name size false).exec s = ((true,x),v))
    (made : Made reserved dirty owner s v x name size) : x = m ∧ BlocksFrom v x (m+1) size := by
  obtain ⟨t,u,alloc,create,add⟩ := createInode_done run
  obtain ⟨same,front₁⟩ := allocate_first ready isWrite_inodeWriteAt front alloc
  refine ⟨same,?_⟩
  rcases layout.allocate ready isWrite_inodeWriteAt with ⟨x',t',run',allocated,ready₁,after,aside,out⟩ | ⟨run',-⟩
  · rw [alloc] at run'
    obtain ⟨sector,state⟩ := Prod.mk.inj run'
    obtain rfl := Option.some.inj sector
    subst state
    obtain ⟨u',-,filling⟩ := createBlocks_spec allocated ready₁ after aside out origin low high
    split at filling
    · rename_i enough
      obtain ⟨create',filled⟩ := filling
      rw [create] at create'
      obtain ⟨-,rfl⟩ := Prod.mk.inj create'
      have order := inodeCreate_order ready₁ out.marked size false enough.1 high front₁ create
      have rootInode := filled.kept.inodes rootDirSector owns
      have holds' : Holds u.device u p rootDirSector inode := by
        refine ⟨?_,holds.sector,holds.data.trans rootInode.symm,holds.writable,?_⟩
        · rw [filled.handles]
          exact holds.cell
        · rw [filled.handles]
          exact holds.other
      have apart : x ≠ rootDirSector := fun same => filled.other (same ▸ owns)
      rcases dirAdd_spec stale filled.layout filled.ready origin (Or.inl owns) holds'
        (by rw [filled.handles]; exact opened) name x with ⟨-,refused⟩ | ⟨-,done,w,d,added,outcome⟩
      · rw [add] at refused
        exact absurd (congrArg Prod.fst refused).symm Bool.false_ne_true
      · rw [add] at added
        obtain ⟨-,rfl⟩ := Prod.mk.inj added
        have device := outcome.aside.inodes x (Or.inr rfl) apart
        have tree := outcome.aside.trees x (Or.inr rfl) apart
        have count := made.count
        have filledCount := filled.count
        refine ⟨(List.map_congr_left fun k member => ?_).trans order.order,
          order.front.marks outcome.ready.packed outcome.marks (by omega)⟩
        rw [device]
        exact tree k.1 k.2 (inodeReach_key _ k member)
    · rw [create] at filling
      exact absurd (congrArg Prod.fst filling.1).symm Bool.false_ne_true
  · rw [alloc] at run'
    exact absurd (congrArg Prod.fst run') (Option.some_ne_none _)

/-- `filesys_create` of a regular file, on a free map that is one run of free sectors. -/
theorem filesysCreate_order (layout : Layout reserved owner s.device s) (ready : Ready reserved dirty s)
    (origin : reserved 0) (owns : owner rootDirSector) (closed : RootClosed s.vars.handles) (stale : List Byte)
    (path : CString) (low : -2147483648 ≤ size) (high : size < 2147483648) (front : FreeFrom s.vars.freeMap m)
    (growth : rootGrowth s.device = 0) (good : leakAt s (splitPathFilename path).2 size = none) :
    ∃ v, s.vars.handles.Same v.vars.handles ∧ (filesysCreate stale path size false).exec s = (true,v) ∧
      Made reserved dirty owner s v m (splitPathFilename path).2 size ∧ BlocksFrom v m (m+1) size := by
  have opening := exec_dirOpenRoot_new s closed.unset closed.absent
  change _ = (_,withHandles s (s.vars.handles.openRoot (s.device rootDirSector))) at opening
  have layout' := layout.congr (t := withHandles s (s.vars.handles.openRoot (s.device rootDirSector))) rfl rfl
  have ready' := ready.openRoot closed.live (s.device rootDirSector)
  have holds := holds_openRoot s closed.live
  have opened := dir_openRoot s.vars.handles (s.device rootDirSector)
  obtain ⟨v,d,handles,stages⟩ := createInode_spec layout' ready' origin owns holds opened stale
    (splitPathFilename path).2 low high
  have leak : leakAt (withHandles s (s.vars.handles.openRoot (s.device rootDirSector))) (splitPathFilename path).2 size =
      leakAt s (splitPathFilename path).2 size := rfl
  rw [leak,good] at stages
  obtain ⟨x,run,made⟩ := stages
  obtain ⟨rfl,order⟩ := createInode_order layout' ready' origin owns holds opened stale (splitPathFilename path).2 low high
    front growth run made
  obtain ⟨closing,same,after⟩ := Ready.closeRoot closed made.ready (.of_eq handles)
  refine ⟨_,same,?_,made.rehandle _ after,order.congr (fun _ _ => rfl) rfl⟩
  unfold filesysCreate
  simp only [Task.exec_bind,opening,run,Bool.not_true,Bool.false_and,Bool.false_eq_true,if_false,Task.exec_pure,closing]

end

/-- The slots of a directory that are free. -/
def freeSlots (a : List Byte) : Nat := (List.range (entryCount a)).countP fun i => !(entryAt a i).inUse

section
variable {a : List Byte} {name other : CString} {x : Nat}

theorem freeSlot_lt (some : 0 < freeSlots a) : freeSlot a < entryCount a := by
  obtain ⟨i,member,free⟩ := List.countP_pos_iff.mp some
  unfold freeSlot stopAt
  cases found : findEntry a (fun e => !e.inUse) 0 with
  | none =>
    rw [findEntry_none a _ 0 found i (Nat.zero_le i) (List.mem_range.mp member)] at free
    exact absurd free Bool.false_ne_true
  | some j => exact (findEntry_some a _ 0 j found).2.1

theorem freeSlot_unused (some : 0 < freeSlots a) : (entryAt a (freeSlot a)).inUse = false := by
  have inside := freeSlot_lt some
  unfold freeSlot stopAt at inside ⊢
  cases found : findEntry a (fun e => !e.inUse) 0 with
  | none =>
    rw [found,Option.getD_none,Nat.zero_max] at inside
    exact absurd inside (Nat.lt_irrefl _)
  | some j => simpa using (findEntry_some a _ 0 j found).2.2.1

/-- A new entry in a slot that was there already. -/
theorem entryCount_new (some : 0 < freeSlots a) :
    entryCount (arrayWrite a (newEntry name x).bytes (36 * freeSlot a) 36) = entryCount a := by
  have inside := freeSlot_lt some
  rw [entryCount_write]
  omega

theorem freeSlots_new (some : 0 < freeSlots a) (small : x < 4294967296) :
    freeSlots (arrayWrite a (newEntry name x).bytes (36 * freeSlot a) 36) + 1 = freeSlots a := by
  have inside := freeSlot_lt some
  have flip := Bitmap.countP_flip (fun i => !(entryAt a i).inUse)
    (fun i => if i = freeSlot a then false else !(entryAt a i).inUse) (freeSlot a)
    (by rw [freeSlot_unused some]; rfl) (if_pos rfl) (fun j other => if_neg other) (entryCount a)
  rw [if_pos inside] at flip
  refine Eq.trans (congrArg (· + 1) ?_) flip
  unfold freeSlots
  rw [entryCount_new some]
  refine List.countP_congr fun k member => ?_
  rw [entryAt_write (Nat.le_of_lt inside) (Nat.lt_of_lt_of_le (List.mem_range.mp member) (Nat.le_max_left _ _)),
    newEntry_bytes name x small]
  split
  · exact Iff.rfl
  · exact Iff.rfl

theorem findName_other (some : 0 < freeSlots a) (small : x < 4294967296) (fits : strlen name ≤ nameMax)
    (ne : other ≠ name) :
    findName (arrayWrite a (newEntry name x).bytes (36 * freeSlot a) 36) other = findName a other := by
  have inside := freeSlot_lt some
  unfold findName findEntry
  rw [entryCount_new some]
  refine List.find?_congr fun k member => ?_
  have bounds := List.mem_range'_1.mp member
  rw [entryAt_write (Nat.le_of_lt inside) (Nat.lt_of_lt_of_le (by omega) (Nat.le_max_left _ _)),newEntry_bytes name x small]
  split
  · rename_i here
    have different : (other == name) = false := beq_eq_false_iff_ne.mpr ne
    unfold nameTest
    rw [here,freeSlot_unused some,Bool.false_and]
    unfold DirEntry.nameString newEntry
    rw [nameString_strncpy name fits,different,Bool.and_false]
  · rfl

end

/-- The files of the rebuild phase of `defragment`, created one after the other. -/
def rebuild (stale : List Byte) : List (CString × Int) → FsM (List Bool)
  | [] => pure []
  | file :: rest => do
    let created ← filesysCreate stale file.1 file.2 false
    let others ← rebuild stale rest
    pure (created :: others)

/-- Files that can be created: distinct names of 1 to 30 characters that no entry has yet,
sizes for which there are sectors, and a slot for each of them. -/
structure Creatable (s : Volume) (files : List (CString × Int)) : Prop where
  names : ∀ f ∈ files, SlashFree f.1 ∧ 1 ≤ strlen f.1 ∧ strlen f.1 ≤ 30
  distinct : (files.map Prod.fst).Nodup
  new : ∀ f ∈ files, sectorOf s f.1 = none
  sizes : ∀ f ∈ files, 0 ≤ f.2 ∧ f.2 ≤ 8517120
  fit : (files.map fun f => 1 + blocksFor f.2).sum ≤ s.vars.freeMap.clearCount
  slots : files.length ≤ freeSlots (rootArray s)

/-- Each data sector is at most three sectors behind the one before. -/
def Spaced (d : Sector) (mem : Nat → Sector) : Prop :=
  ∀ k, k + 1 < bytesToSectors d.length →
    dataSector d mem k < dataSector d mem (k+1) ∧ dataSector d mem (k+1) ≤ dataSector d mem k + 3

/-- The file at `z` is what it was. -/
structure Carried (s t : Volume) (z : Nat) : Prop where
  listed : ListedSector t z
  inode : t.device z = s.device z
  tree : SameTree (s.device z) s.device t.device

/-- The state `t` with the file `x` of that name and size, and otherwise the files of `s`. -/
structure Added (reserved dirty : Nat → Prop) (s t : Volume) (name : CString) (size : Int) (x : Nat) : Prop where
  mounted : Mounted reserved dirty t
  named : sectorOf t name = some x
  size : (t.device x).length = size
  spaced : Spaced (t.device x) t.device
  others : ∀ other, other ≠ name → sectorOf t other = sectorOf s other
  carried : ∀ z, ListedSector s z → Carried s t z
  only : ∀ z, ListedSector t z → ListedSector s z ∨ z = x

section
variable {reserved dirty owner : Nat → Prop} {s t u : Volume} {m x : Nat} {size : Int} {name : CString}

theorem BlocksFrom.spaced (order : BlocksFrom t x m size) (length : (t.device x).length = size)
    (limit : bytesToSectors size ≤ 16635) : Spaced (t.device x) t.device := by
  have sector (k : Nat) (inside : k < bytesToSectors size) : dataSector (t.device x) t.device k = m + dataPlace k :=
    FirstFit.target_eq order (dataPlace k) (dataPath k) (inodeReach_place _ k inside (by omega))
  intro k inside
  rw [length] at inside
  rw [sector k (by omega),sector (k+1) inside]
  have step := dataPlace_step k
  omega

theorem Spaced.carried (spaced : Spaced (s.device x) s.device) (carried : Carried s t x)
    (limit : bytesToSectors (s.device x).length ≤ 16635) : Spaced (t.device x) t.device := by
  have sector (k : Nat) (inside : k < bytesToSectors (s.device x).length) :
      dataSector (t.device x) t.device k = dataSector (s.device x) s.device k := by
    unfold dataSector
    rw [carried.inode]
    exact carried.tree _ _ (dataPath_key k (by omega)).1
  intro k inside
  rw [carried.inode] at inside
  rw [sector k (by omega),sector (k+1) inside]
  exact spaced k inside

theorem Carried.trans (first : Carried s t x) (second : Carried t u x) : Carried s u x := by
  refine ⟨second.listed,second.inode.trans first.inode,fun pointer path key => ?_⟩
  have later := second.tree pointer path key
  rw [first.inode] at later
  exact later.trans (first.tree pointer path key)

theorem sectorOf_none (missing : sectorOf s name = none) : findName (rootArray s) name = none :=
  Option.map_eq_none_iff.mp missing

/-- The root directory after a creation in a slot that was there. -/
theorem Mounted.added (mounted : Mounted reserved dirty s) (same : s.vars.handles.Same t.vars.handles)
    (made : Made reserved dirty (Owns (rootArray s)) s t x name size) (some : 0 < freeSlots (rootArray s))
    (good : ¬BadName (rootArray s) name) (spaced : Spaced (t.device x) t.device) :
    Added reserved dirty s t name size x ∧ freeSlots (rootArray t) + 1 = freeSlots (rootArray s) := by
  obtain ⟨after,array⟩ := mounted.made same made
  obtain ⟨positive,slot,-⟩ := freeSlot_spec mounted.root.self mounted.root.used
  have small : x < 4294967296 :=
    (marked_small _ made.ready.packed made.ready.small x (made.layout.marked x (Or.inr rfl))).trans (by decide)
  have stored := newEntry_bytes name x small
  have fits : strlen name ≤ nameMax := Nat.le_of_not_lt fun long => good (Or.inr (Or.inl long))
  have unused := freeSlot_unused some
  have apart (k : Nat) (listed : ListedAt (rootArray s) k) : k ≠ freeSlot (rootArray s) := by
    rintro rfl
    rw [listed.used] at unused
    exact absurd unused.symm Bool.false_ne_true
  have kept (k : Nat) (listed : ListedAt (rootArray s) k) :
      ListedAt (rootArray t) k ∧ entryAt (rootArray t) k = entryAt (rootArray s) k := by
    have there : ListedAt (rootArray t) k := by
      rw [array,listedAt_write slot positive stored,if_neg (apart k listed)]
      exact listed
    refine ⟨there,?_⟩
    rw [array] at there ⊢
    rw [entryAt_listed slot stored there,if_neg (apart k listed)]
  refine ⟨⟨after,made.named mounted.root good,made.length,spaced,fun other ne => ?_,?_,?_⟩,?_⟩
  · have found := findName_other some small fits ne
    rw [← array] at found
    unfold sectorOf
    rw [found]
    cases old : findName (rootArray s) other with
    | none => rw [Option.map_none,Option.map_none]
    | some i => rw [Option.map_some,Option.map_some,(kept i (findName_listed old).1).2]
  · rintro z ⟨k,listed,rfl⟩
    obtain ⟨there,entry⟩ := kept k listed
    exact ⟨⟨k,there,by rw [entry]⟩,made.inodes _ (owns_listed listed) (mounted.apart k listed),
      made.trees _ (owns_listed listed) (mounted.apart k listed)⟩
  · rintro z ⟨k,listed,rfl⟩
    rw [array] at listed ⊢
    have entry := entryAt_listed slot stored listed
    rw [listedAt_write slot positive stored] at listed
    split at listed
    · rename_i here
      rw [entry,if_pos here]
      exact Or.inr rfl
    · rename_i other
      rw [entry,if_neg other]
      exact Or.inl ⟨k,listed,rfl⟩
  · rw [array]
    exact freeSlots_new some small

/-- The slot that `dir_add` takes in a directory with a free one needs no new sector. -/
theorem Mounted.slot_room (mounted : Mounted reserved dirty s) (some : 0 < freeSlots (rootArray s)) :
    rootGrowth s.device = 0 ∧ 36 * freeSlot (rootArray s) + 36 ≤ 8517120 := by
  have inside := freeSlot_lt some
  have whole := mounted.root.whole
  have limit := mounted.layout.limit _ owns_root
  have natural := mounted.layout.natCast owns_root
  unfold rootArray at inside whole
  rw [length_contents] at whole
  refine ⟨?_,by unfold rootArray; omega⟩
  unfold rootGrowth need
  rw [if_pos (by omega)]

/-- One creation of the loop. -/
theorem Mounted.create_next {file : CString × Int} {rest : List (CString × Int)} (mounted : Mounted reserved dirty s)
    (front : FreeFrom s.vars.freeMap m) (files : Creatable s (file :: rest)) (stale : List Byte) :
    ∃ v, (filesysCreate stale file.1 file.2 false).exec s = (true,v) ∧ Added reserved dirty s v file.1 file.2 m ∧
      FreeFrom v.vars.freeMap (m + 1 + blocksFor file.2) ∧ Creatable v rest ∧
      Made reserved dirty (Owns (rootArray s)) s v m file.1 file.2 ∧ BlocksFrom v m (m+1) file.2 := by
  have here : file ∈ file :: rest := List.mem_cons_self
  obtain ⟨plain,positive,fits⟩ := files.names file here
  obtain ⟨natural,small⟩ := files.sizes file here
  have fit := files.fit
  rw [List.map_cons,List.sum_cons] at fit
  have slots := files.slots
  rw [List.length_cons] at slots
  obtain ⟨growth,room⟩ := mounted.slot_room (Nat.lt_of_lt_of_le (Nat.succ_pos _) slots)
  have good : ¬BadName (rootArray s) file.1 := by
    unfold BadName
    rw [sectorOf_none (files.new file here)]
    rintro (empty | long | used)
    · omega
    · exact absurd fits (Nat.not_le_of_lt long)
    · exact Bool.false_ne_true used
  have name : (splitPathFilename file.1).2 = file.1 := by
    rw [splitPathFilename_slashFree file.1 plain]
  have leak : leakAt s file.1 file.2 = none := by
    refine createLeak_none file.2 (by omega) natural small good ?_ room
    rw [growth]
    omega
  have low : -2147483648 ≤ file.2 := by omega
  have high : file.2 < 2147483648 := by omega
  obtain ⟨v,same,run,made,order⟩ := filesysCreate_order mounted.layout mounted.ready mounted.origin owns_root
    mounted.idle.closed stale file.1 low high front growth (by rw [name]; exact leak)
  rw [name] at made
  have spaced := order.spaced made.length ((bytesToSectors_le _ natural (by omega)).mpr small)
  obtain ⟨added,free⟩ := mounted.added same made (Nat.lt_of_lt_of_le (Nat.succ_pos _) slots) good spaced
  have count := made.count
  obtain ⟨absent,distinct⟩ := List.nodup_cons.mp files.distinct
  refine ⟨v,run,added,order.front,⟨fun f member => files.names f (List.mem_cons_of_mem _ member),distinct,fun f member => ?_,
    fun f member => files.sizes f (List.mem_cons_of_mem _ member),by omega,by omega⟩,made,order⟩
  rw [added.others f.1 fun same => absent (List.mem_map.mpr ⟨f,member,same⟩)]
  exact files.new f (List.mem_cons_of_mem _ member)

/-- The files of the list are there in `t`, with their data sectors in order, and those of `s`. -/
structure Rebuilt (reserved dirty : Nat → Prop) (s t : Volume) (files : List (CString × Int)) : Prop where
  mounted : Mounted reserved dirty t
  created : ∀ f ∈ files, ∃ x, sectorOf t f.1 = some x ∧ (t.device x).length = f.2 ∧ Spaced (t.device x) t.device
  others : ∀ other, other ∉ files.map Prod.fst → sectorOf t other = sectorOf s other
  carried : ∀ z, ListedSector s z → Carried s t z
  only : ∀ z, ListedSector t z → ListedSector s z ∨ Spaced (t.device z) t.device

/-- The loop. -/
theorem Mounted.rebuild (mounted : Mounted reserved dirty s) (front : FreeFrom s.vars.freeMap m)
    (files : List (CString × Int)) (creatable : Creatable s files) (stale : List Byte) :
    ∃ t, (FS.rebuild stale files).exec s = (List.replicate files.length true,t) ∧ Rebuilt reserved dirty s t files := by
  induction files generalizing s m with
  | nil =>
    refine ⟨s,rfl,mounted,fun f member => absurd member List.not_mem_nil,fun _ _ => rfl,fun z listed => ?_,
      fun z listed => Or.inl listed⟩
    exact ⟨listed,rfl,fun _ _ _ => rfl⟩
  | cons file rest ih =>
    obtain ⟨v,run,added,front',creatable',-⟩ := mounted.create_next front creatable stale
    obtain ⟨t,others,rebuilt⟩ := ih added.mounted front' creatable'
    obtain ⟨absent,-⟩ := List.nodup_cons.mp creatable.distinct
    obtain ⟨i,-,listed,sector⟩ := listed_of_sectorOf added.named
    have kept := rebuilt.carried m ⟨i,listed,sector⟩
    have small := (creatable.sizes file List.mem_cons_self)
    have spaced := added.spaced.carried kept (by
      rw [added.size]
      exact (bytesToSectors_le _ small.1 (by omega)).mpr small.2)
    refine ⟨t,?_,rebuilt.mounted,fun f member => ?_,fun other outside => ?_,fun z there => ?_,fun z there => ?_⟩
    · unfold FS.rebuild
      rw [Task.exec_bind,run]
      simp only
      rw [Task.exec_bind,others]
      rfl
    · rcases List.mem_cons.mp member with rfl | later
      · refine ⟨m,(rebuilt.others f.1 absent).trans added.named,?_,spaced⟩
        rw [kept.inode]
        exact added.size
      · exact rebuilt.created f later
    · rw [List.map_cons,List.mem_cons,not_or] at outside
      exact (rebuilt.others other outside.2).trans (added.others other outside.1)
    · exact (added.carried z there).trans (rebuilt.carried z (added.carried z there).listed)
    · rcases rebuilt.only z there with before | new
      · rcases added.only z before with old | rfl
        · exact Or.inl old
        · exact Or.inr spaced
      · exact Or.inr new

end

end MyShell.FS
