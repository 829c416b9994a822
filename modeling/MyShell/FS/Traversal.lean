import MyShell.FS.Opening
import MyShell.FS.DataSectors
import MyShell.FS.Serving
import Mathlib.Data.List.Count

/-! The loops of fsutil2.c over the entries of the root directory: each entry in use from the
position of the directory on, with its inode opened and left open. -/
namespace MyShell.FS
open BlockProgram PointerForest Bitmap

/-- A loop that takes elements from `next` until there is none, and what its body computes. -/
def forEach {γ β : Type} (next : FsM (Option γ)) (visit : γ → FsM β) : Nat → FsM (List β)
  | 0 => pure []
  | fuel+1 => do
    let found ← next
    match found with
    | none => pure []
    | some e => do
      let result ← visit e
      let rest ← forEach next visit fuel
      pure (result :: rest)

/-- Such a loop over the root directory. Each pass but the last moves on by an entry at least. -/
def overRoot {γ β : Type} (next : Nat → FsM (Option γ)) (visit : γ → FsM β) : FsM (List β) := do
  let dir ← dirOpenRoot
  match dir with
  | none => pure []
  | some dir => do
    let h ← getHandles
    let length ← inodeLength (h.dir dir).inode
    let results ← forEach (next dir) visit (length.toNat + 1)
    dirClose (some dir)
    pure results

/-- `dir_readdir_inode` in a loop that ends when it returns -1. -/
def nextInode (dir : Nat) : FsM (Option (List Byte × Nat)) := do
  let found ← dirReaddirInode dir
  return found.filter fun e => e.2 != noSector

/-- The entries in use from the entry `j` on. -/
def usedFrom (a : List Byte) (j : Nat) : List Nat :=
  (List.range' j (entryCount a - j)).filter fun i => (entryAt a i).inUse

/-- The data sectors of a file, a partial last one included. -/
def dataSectors (d : Sector) (mem : Nat → Sector) : List Nat :=
  (List.range (bytesToSectors d.length)).map (sectorAt d mem)

/-- A root directory that can be read, of files that have their data sectors. The image `img`
tells the inodes as they are in memory. -/
structure Listing (img : Nat → Sector) (s : Volume) : Prop where
  image : img rootDirSector = s.device rootDirSector
  root : RootArray (rootArray s)
  backed : ∀ x, Owns (rootArray s) x → Backed (img x) s.device
  sectors : ∀ x, Owns (rootArray s) x → ∀ y ∈ dataSectors (img x) s.device, 2 ≤ y ∧ y < noSector
  named : ∀ i, ListedAt (rootArray s) i → entrySector s i ≠ noSector
  apart : ∀ i, ListedAt (rootArray s) i → entrySector s i ≠ rootDirSector
  nonzero : ∀ x, Owns (rootArray s) x → x ≠ freeMapSector

/-- The inode of the root directory and those of the entries from `k` on. -/
def Ahead (a : List Byte) (k x : Nat) : Prop :=
  x = rootDirSector ∨ ∃ i, k ≤ i ∧ ListedAt a i ∧ (entryAt a i).inodeSector = x

/-- The open inodes of the entries from `k` on are those of the image, each open once, and the
others are on the device. The root directory is open in one place. -/
structure Mirrors (img : Nat → Sector) (k : Nat) (s : Volume) : Prop where
  opened : ∀ p ∈ s.vars.handles.openInodes, Ahead (rootArray s) k (inodeSector s p) →
    (s.vars.handles.inode p).data = img (inodeSector s p) ∧ (s.vars.handles.inode p).removed = false ∧
      (s.vars.handles.inode p).openCnt = 1
  closed : ∀ x, Ahead (rootArray s) k x → s.vars.handles.Unopened x → img x = s.device x
  single : ∀ p ∈ s.vars.handles.openInodes, ∀ q ∈ s.vars.handles.openInodes, inodeSector s p = rootDirSector →
    inodeSector s q = rootDirSector → p = q

/-- The root directory, open at its entry `j`. -/
structure RootHandle (img : Nat → Sector) (s : Volume) (dir p j : Nat) (openCnt : Int) : Prop where
  dir : s.vars.handles.dirs.cell dir = some ⟨p,(36*j : Nat),openCnt⟩
  root : ∃ i, s.vars.handles.inodes.cell p = some i ∧ i.sector = rootDirSector ∧ i.data = img rootDirSector ∧
    i.removed = false ∧ i.openCnt = 1
  opened : p ∈ s.vars.handles.openInodes

/-- A state between two commands. The root directory may have been left open anywhere. -/
structure FileState (img : Nat → Sector) (s : Volume) : Prop where
  listing : Listing img s
  mirrors : Mirrors img 1 s
  cwd : ∀ dir, s.vars.handles.cwd = some dir → ∃ p j openCnt, 1 ≤ j ∧ 0 < openCnt ∧ RootHandle img s dir p j openCnt

/-- The entry at which a loop over the root directory starts. -/
def startEntry (s : Volume) : Nat :=
  match s.vars.handles.cwd with
  | none => 1
  | some dir => ((s.vars.handles.dir dir).pos / 36).toNat

/-- What `h` had is there in `h'` as well. -/
structure Handles.Extends (h h' : Handles) : Prop where
  inodes : ∀ p i, h.inodes.cell p = some i → h'.inodes.cell p = some i
  openInodes : ∀ p ∈ h.openInodes, p ∈ h'.openInodes
  files : h'.files.cell = h.files.cell
  dirs : h'.dirs = h.dirs
  cwd : h'.cwd = h.cwd
  fileTable : h'.fileTable = h.fileTable

section
variable {a : List Byte} {i j k : Nat}

theorem usedFrom_step (inside : j < entryCount a) :
    usedFrom a j = if (entryAt a j).inUse then j :: usedFrom a (j+1) else usedFrom a (j+1) := by
  have more : entryCount a - j = entryCount a - (j+1) + 1 := by omega
  unfold usedFrom
  rw [more,List.range'_succ,List.filter_cons]

theorem usedFrom_past (beyond : entryCount a ≤ j) : usedFrom a j = [] := by
  have none : entryCount a - j = 0 := by omega
  unfold usedFrom
  rw [none,List.range'_zero,List.filter_nil]

theorem mem_usedFrom : i ∈ usedFrom a j ↔ j ≤ i ∧ i < entryCount a ∧ (entryAt a i).inUse = true := by
  unfold usedFrom
  rw [List.mem_filter,List.mem_range'_1,and_assoc]
  refine and_congr_right fun low => and_congr_left fun _ => ?_
  omega

theorem mem_usedFrom_one : i ∈ usedFrom a 1 ↔ ListedAt a i :=
  mem_usedFrom.trans ⟨fun all => ⟨all.1,all.2.1,all.2.2⟩,fun listed => ⟨listed.positive,listed.inside,listed.used⟩⟩

/-- The entries in use are those that the searches of the directory find. -/
theorem usedFrom_find (a : List Byte) (j : Nat) : usedFrom a j =
    match findEntry a (fun e => e.inUse) j with
    | none => []
    | some i => i :: usedFrom a (i+1) := by
  induction left : entryCount a - j generalizing j with
  | zero =>
    have beyond : entryCount a ≤ j := by omega
    rw [usedFrom_past beyond,findEntry_past _ _ _ beyond]
  | succ left ih =>
    have inside : j < entryCount a := by omega
    rw [usedFrom_step inside,findEntry_step _ _ _ inside]
    cases used : (entryAt a j).inUse with
    | true => rw [if_pos rfl,if_pos rfl]
    | false => rw [if_neg Bool.false_ne_true,if_neg Bool.false_ne_true,ih (j+1) (by omega)]

/-- Counting from `k` on is counting all entries behind it. -/
theorem countP_usedFrom (test : Nat → Bool) (low : j ≤ k) :
    (usedFrom a k).countP test = (usedFrom a j).countP fun i => decide (k ≤ i) && test i := by
  induction left : k - j generalizing j with
  | zero =>
    obtain rfl : j = k := by omega
    refine List.countP_congr fun i member => ?_
    rw [decide_eq_true (mem_usedFrom.mp member).1,Bool.true_and]
  | succ left ih =>
    rw [ih (j := j+1) (by omega) (by omega)]
    by_cases inside : j < entryCount a
    · rw [usedFrom_step inside]
      have before : (decide (k ≤ j) && test j) = false := by
        rw [decide_eq_false (by omega),Bool.false_and]
      split
      · rw [List.countP_cons_of_neg (by rw [before]; exact Bool.false_ne_true)]
      · rfl
    · rw [usedFrom_past (j := j) (by omega),usedFrom_past (by omega)]

end

theorem countP_eq_iff {α : Type} (l : List α) (p q : α → Bool) (sub : ∀ x ∈ l, p x = true → q x = true) :
    l.countP p = l.countP q ↔ ∀ x ∈ l, q x = true → p x = true := by
  induction l with
  | nil => exact ⟨fun _ x member => absurd member List.not_mem_nil,fun _ => rfl⟩
  | cons x l ih =>
    have tail : ∀ y ∈ l, p y = true → q y = true := fun y member => sub y (List.mem_cons_of_mem _ member)
    have fewer := List.countP_mono_left tail
    rw [List.forall_mem_cons,← ih tail,List.countP_cons,List.countP_cons]
    cases holds : p x with
    | true =>
      rw [sub x List.mem_cons_self holds]
      simp only [if_true,Nat.add_right_cancel_iff,implies_true,true_and]
    | false =>
      cases other : q x with
      | true =>
        simp only [if_true,Bool.false_eq_true,if_false,Nat.add_zero,true_implies,false_and,iff_false]
        omega
      | false => simp only [Bool.false_eq_true,if_false,Nat.add_zero,false_implies,true_and]

/-- The loop over the entries in use. The invariant `I` is about the entry the next pass starts at. -/
theorem exec_forEach {γ β : Type} {next : FsM (Option γ)} {visit : γ → FsM β} {a : List Byte}
    (I : Nat → Volume → Prop) (element : Nat → γ) (result : Nat → β)
    (past : ∀ j s, I j s → findEntry a (fun e => e.inUse) j = none → ∃ t k, next.exec s = (none,t) ∧ I k t)
    (step : ∀ j i s, I j s → findEntry a (fun e => e.inUse) j = some i →
      ∃ t u, next.exec s = (some (element i),t) ∧ (visit (element i)).exec t = (result i,u) ∧ I (i+1) u)
    (fuel j : Nat) (s : Volume) (start : I j s) (enough : entryCount a < fuel + j) :
    ∃ t, (forEach next visit fuel).exec s = ((usedFrom a j).map result,t) ∧ ∃ k, I k t := by
  induction fuel generalizing j s with
  | zero =>
    rw [usedFrom_past (by omega)]
    exact ⟨s,rfl,j,start⟩
  | succ fuel ih =>
    rw [usedFrom_find]
    cases found : findEntry a (fun e => e.inUse) j with
    | none =>
      obtain ⟨t,k,run,after⟩ := past j s start found
      refine ⟨t,?_,k,after⟩
      rw [forEach,Task.exec_bind,run]
      rfl
    | some i =>
      obtain ⟨t,u,run,body,after⟩ := step j i s start found
      have low := (findEntry_some a _ j i found).1
      obtain ⟨v,rest,ended⟩ := ih (i+1) u after (by omega)
      refine ⟨v,?_,ended⟩
      rw [forEach,Task.exec_bind,run]
      simp only
      rw [Task.exec_bind,body]
      simp only
      rw [Task.exec_bind,rest]
      rfl

section
variable {img : Nat → Sector} {s : Volume} {h : Handles} {x p q dir j k : Nat} {openCnt : Int}

theorem withHandles_vars (s : Volume) (h : Handles) : (withHandles s h).vars.handles = h := rfl

theorem Handles.Extends.refl : h.Extends h := ⟨fun _ _ cell => cell,fun _ member => member,rfl,rfl,rfl,rfl⟩

theorem Handles.extends_openInode (h : Handles) (x : Nat) (data : Sector) : h.Extends (h.openInode x data) := by
  refine ⟨fun p i cell => ?_,fun p member => List.mem_cons_of_mem _ member,rfl,rfl,rfl,rfl⟩
  refine ((ObjectHeap.alloc_cell _ _ _).trans (if_neg fun here => ?_)).trans cell
  rw [here,h.inodes.next_cell] at cell
  exact Option.some_ne_none _ cell.symm

theorem inode_openInode (h : Handles) (x : Nat) (data : Sector) (p : Nat) :
    (h.openInode x data).inode p = if p = h.inodes.next then readInode x data else h.inode p := by
  unfold Handles.inode ObjectHeap.deref Handles.openInode
  rw [ObjectHeap.alloc_cell]
  split <;> rfl

theorem ahead_owns {a : List Byte} (ahead : Ahead a k x) : Owns a x :=
  ahead.imp id fun ⟨i,_,listed,here⟩ => ⟨i,listed,here⟩

theorem ahead_mono {a : List Byte} {k' : Nat} (low : k ≤ k') (ahead : Ahead a k' x) : Ahead a k x :=
  ahead.imp id fun ⟨i,behind,listed,here⟩ => ⟨i,low.trans behind,listed,here⟩

theorem ahead_listed {a : List Byte} {i : Nat} (listed : ListedAt a i) (low : k ≤ i) : Ahead a k (entryAt a i).inodeSector :=
  Or.inr ⟨i,low,listed,rfl⟩

theorem Mirrors.mono {k' : Nat} (mirrors : Mirrors img k s) (low : k ≤ k') : Mirrors img k' s :=
  ⟨fun p member ahead => mirrors.opened p member (ahead_mono low ahead),
    fun x ahead => mirrors.closed x (ahead_mono low ahead),mirrors.single⟩

/-- A blank inode is not open. -/
theorem Listing.dangling (listing : Listing img s) (ahead : Ahead (rootArray s) k (inodeSector s q)) :
    s.vars.handles.inodes.cell q = some (s.vars.handles.inode q) := by
  cases cell : s.vars.handles.inodes.cell q with
  | some i => rw [Handles.inode,ObjectHeap.deref_of_cell _ _ _ cell]
  | none =>
    have blank : inodeSector s q = freeMapSector := by
      unfold inodeSector Handles.inode ObjectHeap.deref
      rw [cell]
      rfl
    exact absurd blank (listing.nonzero _ (ahead_owns ahead))

/-- Opening an inode for the first time. -/
theorem Mirrors.openInode (mirrors : Mirrors img k s) (listing : Listing img s) (absent : s.vars.handles.Unopened x) :
    Mirrors img k (FS.withHandles s (s.vars.handles.openInode x (s.device x))) := by
  have inode := inode_openInode s.vars.handles x (s.device x)
  have old (q : Nat) (ahead : Ahead (rootArray s) k (inodeSector s q)) : q ≠ s.vars.handles.inodes.next := by
    intro new
    have cell := listing.dangling ahead
    rw [new,s.vars.handles.inodes.next_cell] at cell
    exact Option.some_ne_none _ cell.symm
  have other (q : Nat) (ne : q ≠ s.vars.handles.inodes.next) :
      inodeSector (FS.withHandles s (s.vars.handles.openInode x (s.device x))) q = inodeSector s q := by
    unfold inodeSector
    rw [withHandles_vars,inode q,if_neg ne]
  have here : inodeSector (FS.withHandles s (s.vars.handles.openInode x (s.device x))) s.vars.handles.inodes.next = x := by
    unfold inodeSector
    rw [withHandles_vars,inode,if_pos rfl]
    rfl
  refine ⟨fun p member ahead => ?_,fun z ahead unopened => mirrors.closed z ahead fun p member same => ?_,
    fun p first q second left right => ?_⟩
  · by_cases new : p = s.vars.handles.inodes.next
    · rw [withHandles_vars,inode p,if_pos new]
      rw [new,here] at ahead ⊢
      exact ⟨(mirrors.closed x ahead absent).symm,rfl,rfl⟩
    · rcases List.mem_cons.mp member with same | member
      · exact absurd same new
      · rw [other p new] at ahead ⊢
        rw [withHandles_vars,inode p,if_neg new]
        exact mirrors.opened p member ahead
  · have ne := old p (by unfold inodeSector; rw [same]; exact ahead)
    exact unopened p (List.mem_cons_of_mem _ member) ((other p ne).trans same)
  · -- a directory that is open already is found, so both are the new one or neither is
    have apart (r : Nat) (member : r ∈ s.vars.handles.openInodes) (root : inodeSector s r = rootDirSector) : x ≠ rootDirSector :=
      fun same => absent r member (root.trans same.symm)
    by_cases newP : p = s.vars.handles.inodes.next
    · by_cases newQ : q = s.vars.handles.inodes.next
      · rw [newP,newQ]
      · rcases List.mem_cons.mp second with same | member
        · exact absurd same newQ
        · rw [newP,here] at left
          rw [other q newQ] at right
          exact absurd left (apart q member right)
    · rcases List.mem_cons.mp first with same | member
      · exact absurd same newP
      · rw [other p newP] at left
        by_cases newQ : q = s.vars.handles.inodes.next
        · rw [newQ,here] at right
          exact absurd right (apart p member left)
        · rcases List.mem_cons.mp second with same | member'
          · exact absurd same newQ
          · rw [other q newQ] at right
            exact mirrors.single p member q member' left right

/-- `inode_open` gives the inode of a file, whether it was open already or not. -/
theorem Mirrors.open (mirrors : Mirrors img k s) (listing : Listing img s) (ahead : Ahead (rootArray s) k x) :
    ∃ q h i, (inodeOpen x).exec s = (q,FS.withHandles s h) ∧ Mirrors img k (FS.withHandles s h) ∧
      s.vars.handles.Extends h ∧ h.inodes.cell q = some i ∧ i.sector = x ∧ i.data = img x ∧ i.removed = false ∧
      i.openCnt = 1 ∧ q ∈ h.openInodes := by
  cases found : s.vars.handles.openInodes.find? fun p => (s.vars.handles.inode p).sector == x with
  | none =>
    have absent : s.vars.handles.Unopened x := by
      intro p member
      have other := List.find?_eq_none.mp found p member
      simpa using other
    exact ⟨_,_,_,exec_inodeOpen_new s x absent,mirrors.openInode listing absent,Handles.extends_openInode _ _ _,
      ObjectHeap.alloc_cell_next _ _,rfl,(mirrors.closed x ahead absent).symm,rfl,rfl,List.mem_cons_self⟩
  | some q =>
    have key := List.find?_some found
    have member := List.mem_of_find?_eq_some found
    have sector : inodeSector s q = x := beq_iff_eq.mp key
    subst sector
    have opening : (inodeOpen (inodeSector s q)).exec s = (q,s) := by
      unfold inodeOpen inodeSector at *
      simp only [Task.exec_bind,exec_getHandles,found]
      rfl
    obtain ⟨data,kept,once⟩ := mirrors.opened q member ahead
    exact ⟨q,s.vars.handles,_,opening,mirrors,Handles.Extends.refl,listing.dangling ahead,rfl,data,kept,once,member⟩

theorem RootHandle.extends (handle : RootHandle img s dir p j openCnt) (more : s.vars.handles.Extends h) :
    RootHandle img (FS.withHandles s h) dir p j openCnt := by
  obtain ⟨i,cell,data⟩ := handle.root
  refine ⟨?_,⟨i,more.inodes p i cell,data⟩,more.openInodes p handle.opened⟩
  rw [withHandles_vars,more.dirs]
  exact handle.dir

theorem RootHandle.dir_eq (handle : RootHandle img s dir p j openCnt) :
    s.vars.handles.dir dir = ⟨p,(36*j : Nat),openCnt⟩ := ObjectHeap.deref_of_cell _ _ _ handle.dir

theorem RootHandle.inode (handle : RootHandle img s dir p j openCnt) :
    inodeSector s p = rootDirSector ∧ (s.vars.handles.inode p).data = img rootDirSector := by
  obtain ⟨i,cell,sector,data,-⟩ := handle.root
  have here : s.vars.handles.inode p = i := ObjectHeap.deref_of_cell _ _ _ cell
  exact ⟨(congrArg Inode.sector here).trans sector,(congrArg Inode.data here).trans data⟩

/-- The handles once a directory moved to the entry `k`. -/
def Handles.moveDir (h : Handles) (dir k : Nat) : Handles :=
  {h with dirs := h.dirs.modify dir fun d => {d with pos := (36*k : Nat)}}

theorem RootHandle.move (handle : RootHandle img s dir p j openCnt) (k : Nat) :
    RootHandle img (FS.withHandles s (s.vars.handles.moveDir dir k)) dir p k openCnt := by
  refine ⟨?_,handle.root,handle.opened⟩
  rw [withHandles_vars,Handles.moveDir,ObjectHeap.modify_cell,if_pos rfl,handle.dir,Option.map_some]

theorem Mirrors.move (mirrors : Mirrors img k s) (dir place : Nat) :
    Mirrors img k (FS.withHandles s (s.vars.handles.moveDir dir place)) := ⟨mirrors.opened,mirrors.closed,mirrors.single⟩

/-- Where a search from the entry `j` on leaves the position. -/
def nextEntry (a : List Byte) (j : Nat) : Nat :=
  match findEntry a (fun e => e.inUse) j with
  | none => max j (entryCount a)
  | some i => i + 1

theorem nextEntry_none {a : List Byte} (missed : findEntry a (fun e => e.inUse) j = none) :
    nextEntry a j = max j (entryCount a) := by
  unfold nextEntry
  rw [missed]

theorem nextEntry_some {a : List Byte} {i : Nat} (found : findEntry a (fun e => e.inUse) j = some i) :
    nextEntry a j = i + 1 := by
  unfold nextEntry
  rw [found]

theorem nextEntry_behind {a : List Byte} (missed : findEntry a (fun e => e.inUse) j = none) : j ≤ nextEntry a j := by
  rw [nextEntry_none missed]
  exact Nat.le_max_left _ _

theorem nextEntry_place (a : List Byte) (j : Nat) : ((36 * stopAt a (fun e => e.inUse) j : Nat) : Int) +
    ((if ((findEntry a (fun e => e.inUse) j).map (entryAt a)).isSome then sizeofDirEntry else 0 : Nat) : Int) =
    (36 * nextEntry a j : Nat) := by
  unfold stopAt nextEntry sizeofDirEntry
  cases findEntry a (fun e => e.inUse) j with
  | none =>
    simp only [Option.map_none,Option.isSome_none,Bool.false_eq_true,if_false,Option.getD_none]
    omega
  | some i =>
    simp only [Option.map_some,Option.isSome_some,if_true,Option.getD_some]
    omega

theorem exec_dirReaddirEntry (handle : RootHandle img s dir p j openCnt) (listing : Listing img s) :
    (dirReaddirEntry dir).exec s = ((findEntry (rootArray s) (fun e => e.inUse) j).map (entryAt (rootArray s)),
      FS.withHandles s (s.vars.handles.moveDir dir (nextEntry (rootArray s) j))) := by
  have array : contents (img rootDirSector) s.device = rootArray s := by
    rw [listing.image]
    rfl
  have scan := scanDirectory_backed (listing.backed _ owns_root) handle.inode.2 (fun e => e.inUse) (36*j : Nat) j rfl
  rw [array] at scan
  unfold dirReaddirEntry
  simp only [Task.exec_bind,exec_getHandles,handle.dir_eq,scan,exec_modifyDir,Task.exec_pure,nextEntry_place,
    FS.withHandles,Handles.moveDir]

theorem listedAt_found {a : List Byte} {i : Nat} (behind : 1 ≤ j) (found : findEntry a (fun e => e.inUse) j = some i) :
    ListedAt a i ∧ j ≤ i :=
  have place := findEntry_some a _ j i found
  ⟨⟨behind.trans place.1,place.2.1,place.2.2.1⟩,place.1⟩

theorem exec_nextInode (handle : RootHandle img s dir p j openCnt) (listing : Listing img s) (behind : 1 ≤ j) :
    (nextInode dir).exec s = ((findEntry (rootArray s) (fun e => e.inUse) j).map fun i =>
      ((entryAt (rootArray s) i).name,entrySector s i),
      FS.withHandles s (s.vars.handles.moveDir dir (nextEntry (rootArray s) j))) := by
  unfold nextInode dirReaddirInode
  simp only [Task.exec_bind,exec_dirReaddirEntry handle listing,Task.exec_pure]
  cases found : findEntry (rootArray s) (fun e => e.inUse) j with
  | none => simp only [Option.map_none,Option.filter_none]
  | some i =>
    have named := listing.named i (listedAt_found behind found).1
    unfold entrySector at named
    have sector : ((entryAt (rootArray s) i).inodeSector != noSector) = true := bne_iff_ne.mpr named
    simp only [Option.map_some,Option.filter_some,sector,if_true]
    rfl

/-- What a loop over the root directory starts with. -/
structure RootOpened (img : Nat → Sector) (s : Volume) (h : Handles) (dir p : Nat) (openCnt : Int) : Prop where
  handle : RootHandle img (withHandles s h) dir p (startEntry s) openCnt
  mirrors : Mirrors img 1 (withHandles s h)
  start : 1 ≤ startEntry s
  cwd : h.cwd = some dir
  files : h.files.cell = s.vars.handles.files.cell
  fileTable : h.fileTable = s.vars.handles.fileTable
  count : s.vars.handles.cwd = none ∧ openCnt = 1 ∨ s.vars.handles.cwd = some dir ∧ 1 < openCnt

theorem FileState.opening (state : FileState img s) :
    ∃ dir p openCnt h, dirOpenRoot.exec s = (some dir,FS.withHandles s h) ∧ RootOpened img s h dir p openCnt := by
  cases unset : s.vars.handles.cwd with
  | none =>
    have start : startEntry s = 1 := by
      unfold startEntry
      rw [unset]
    obtain ⟨q,h,i,opening,mirrors,more,cell,sector,data,kept,once,member⟩ := state.mirrors.open state.listing (Or.inl rfl)
    refine ⟨h.dirs.next,q,1,{h with dirs := h.dirs.alloc ⟨q,(36 : Nat),1⟩, cwd := some h.dirs.next},?_,
      ⟨?_,⟨i,cell,sector,data,kept,once⟩,member⟩,⟨mirrors.opened,mirrors.closed,mirrors.single⟩,start.ge,rfl,more.files,
      more.fileTable,Or.inl ⟨unset,rfl⟩⟩
    · unfold dirOpenRoot
      simp only [Task.exec_bind,exec_getHandles,unset,opening,dirOpen,exec_setHandles,setCwd,Task.exec_modify,Task.exec_pure]
      rfl
    · rw [start]
      exact ObjectHeap.alloc_cell_next _ _
  | some dir =>
    obtain ⟨p,j,openCnt,behind,counted,handle⟩ := state.cwd dir unset
    have start : startEntry s = j := by
      unfold startEntry
      simp only [unset,handle.dir_eq]
      omega
    refine ⟨dir,p,openCnt + 1,{s.vars.handles with dirs := s.vars.handles.dirs.modify dir fun d =>
      {d with openCnt := d.openCnt + 1}},?_,⟨?_,handle.root,handle.opened⟩,
      ⟨state.mirrors.opened,state.mirrors.closed,state.mirrors.single⟩,start.symm ▸ behind,unset,rfl,rfl,
      Or.inr ⟨unset,by omega⟩⟩
    · unfold dirOpenRoot
      simp only [Task.exec_bind,exec_getHandles,unset,exec_modifyDir,Task.exec_pure]
      rfl
    · rw [start,withHandles_vars,ObjectHeap.modify_cell,if_pos rfl,handle.dir,Option.map_some]

/-- The loop at its entry `j`, before or after the body for the entry `k`, with whatever else
`J` says about the objects in memory. -/
structure Walk (img : Nat → Sector) (s : Volume) (J : Handles → Prop) (dir p : Nat) (openCnt : Int) (k j : Nat) (t : Volume) :
    Prop where
  same : t = withHandles s t.vars.handles
  handle : RootHandle img t dir p j openCnt
  mirrors : Mirrors img k t
  behind : 1 ≤ j
  more : J t.vars.handles

theorem withHandles_of_same {t : Volume} (same : t = FS.withHandles s t.vars.handles) (h : Handles) :
    FS.withHandles t h = FS.withHandles s h := by
  rw [same]
  rfl

theorem Walk.device {J : Handles → Prop} {t : Volume} (walk : Walk img s J dir p openCnt k j t) : t.device = s.device := by
  rw [walk.same]
  rfl

theorem Walk.array {J : Handles → Prop} {t : Volume} (walk : Walk img s J dir p openCnt k j t) : rootArray t = rootArray s := by
  unfold rootArray
  rw [walk.device]

theorem Walk.listing {J : Handles → Prop} {t : Volume} (walk : Walk img s J dir p openCnt k j t) (listing : Listing img s) :
    Listing img t := by
  rw [walk.same]
  exact ⟨listing.image,listing.root,listing.backed,listing.sectors,listing.named,listing.apart,listing.nonzero⟩

/-- The directory moves to its next entry. -/
theorem Walk.move {J : Handles → Prop} {t : Volume} (walk : Walk img s J dir p openCnt k j t)
    (moves : ∀ h place, J h → J (h.moveDir dir place)) (place : Nat) (behind : 1 ≤ place) :
    Walk img s J dir p openCnt k place (FS.withHandles t (t.vars.handles.moveDir dir place)) :=
  ⟨withHandles_of_same walk.same _,walk.handle.move place,walk.mirrors.move dir place,behind,moves _ _ walk.more⟩

theorem exec_overRoot_stages {γ β : Type} {next : Nat → FsM (Option γ)} {visit : γ → FsM β} {results : List β} {n : Int}
    {t u : Volume} (opening : dirOpenRoot.exec s = (some dir,t))
    (length : (inodeLength (t.vars.handles.dir dir).inode).exec t = (n,t))
    (run : (forEach (next dir) visit (n.toNat + 1)).exec t = (results,u)) :
    (overRoot next visit).exec s = (results,((dirClose (some dir)).exec u).2) := by
  unfold overRoot
  rw [Task.exec_bind,opening]
  simp only
  rw [Task.exec_bind,exec_getHandles]
  simp only
  rw [Task.exec_bind,length]
  simp only
  rw [Task.exec_bind,run]
  simp only
  rw [Task.exec_bind,Task.exec_pure]

theorem RootOpened.length (opened : RootOpened img s h dir p openCnt) :
    (inodeLength ((FS.withHandles s h).vars.handles.dir dir).inode).exec (FS.withHandles s h) =
      ((img rootDirSector).length,FS.withHandles s h) := by
  rw [opened.handle.dir_eq,← opened.handle.inode.2]
  rfl

/-- The passes of a loop are enough to reach the end of the directory. -/
theorem Listing.enough (listing : Listing img s) (j : Nat) (behind : 1 ≤ j) :
    entryCount (rootArray s) < (img rootDirSector).length.toNat + 1 + j := by
  unfold rootArray entryCount
  rw [length_contents,← listing.image]
  omega

/-- The results of a loop over the root directory, from what its body computes for an entry. -/
theorem exec_overRoot {γ β : Type} {next : Nat → FsM (Option γ)} {visit : γ → FsM β} {element : Nat → γ} {result : Nat → β}
    {J : Handles → Prop} (opened : RootOpened img s h dir p openCnt)
    (opening : dirOpenRoot.exec s = (some dir,FS.withHandles s h)) (listing : Listing img s) (more : J h)
    (reads : ∀ t j, Walk img s J dir p openCnt j j t → (next dir).exec t =
      ((findEntry (rootArray s) (fun e => e.inUse) j).map element,
        FS.withHandles t (t.vars.handles.moveDir dir (nextEntry (rootArray s) j))))
    (moves : ∀ h place, J h → J (h.moveDir dir place))
    (visits : ∀ t i, ListedAt (rootArray s) i → Walk img s J dir p openCnt i (i+1) t →
      ∃ u, (visit (element i)).exec t = (result i,u) ∧ Walk img s J dir p openCnt (i+1) (i+1) u) :
    ∃ t k, (overRoot next visit).exec s = ((usedFrom (rootArray s) (startEntry s)).map result,((dirClose (some dir)).exec t).2) ∧
      Walk img s J dir p openCnt k k t := by
  have start : Walk img s J dir p openCnt (startEntry s) (startEntry s) (FS.withHandles s h) :=
    ⟨rfl,opened.handle,opened.mirrors.mono opened.start,opened.start,more⟩
  have past (j : Nat) (t : Volume) (walk : Walk img s J dir p openCnt j j t)
      (missed : findEntry (rootArray s) (fun e => e.inUse) j = none) :
      ∃ u k, (next dir).exec t = (none,u) ∧ Walk img s J dir p openCnt k k u := by
    have after := walk.move moves _ (walk.behind.trans (nextEntry_behind missed))
    refine ⟨_,_,?_,after.same,after.handle,after.mirrors.mono (nextEntry_behind missed),after.behind,after.more⟩
    rw [reads t j walk,missed,Option.map_none]
  have step (j i : Nat) (t : Volume) (walk : Walk img s J dir p openCnt j j t)
      (found : findEntry (rootArray s) (fun e => e.inUse) j = some i) :
      ∃ u v, (next dir).exec t = (some (element i),u) ∧ (visit (element i)).exec u = (result i,v) ∧
        Walk img s J dir p openCnt (i+1) (i+1) v := by
    obtain ⟨listed,low⟩ := listedAt_found walk.behind found
    have moved := walk.move moves (i+1) (Nat.succ_pos i)
    obtain ⟨v,body,after⟩ := visits _ i listed ⟨moved.same,moved.handle,moved.mirrors.mono low,moved.behind,moved.more⟩
    refine ⟨_,v,?_,body,after⟩
    rw [reads t j walk,found,Option.map_some,nextEntry_some found]
  obtain ⟨t,run,k,ended⟩ := exec_forEach (fun j => Walk img s J dir p openCnt j j) element result past step _ _ _ start
    (listing.enough _ opened.start)
  exact ⟨t,k,exec_overRoot_stages opening opened.length run,ended⟩

end

section
variable {reserved dirty owner : Nat → Prop} {spelled : CString → Prop} {img : Nat → Sector} {s : Volume} {x : Nat}

theorem Layout.sectorAt_eq (layout : Layout reserved owner img s) (owns : owner x) (k : Nat)
    (inside : k < bytesToSectors (img x).length) : sectorAt (img x) s.device k = dataSector (img x) s.device k := by
  have natural := layout.natCast owns
  have limit := layout.limit x owns
  rw [← natural,bytesToSectors_nat _ (by omega)] at inside
  have run := exec_indexToSector (img x) k s (by omega) (layout.present owns k (by omega))
  rw [exec_indexToSector_sectorAt] at run
  exact congrArg Prod.fst run

theorem Layout.dataSectors_eq (layout : Layout reserved owner img s) (owns : owner x) :
    dataSectors (img x) s.device = (List.range (bytesToSectors (img x).length)).map (dataSector (img x) s.device) :=
  List.map_congr_left fun k member => layout.sectorAt_eq owns k (List.mem_range.mp member)

/-- The data sectors of a file are sectors of the device that are not the first ones. -/
theorem Layout.sectors (layout : Layout reserved owner img s) (ready : Ready reserved dirty s) (origin : reserved freeMapSector)
    (root : owner rootDirSector) (owns : owner x) (y : Nat) (member : y ∈ dataSectors (img x) s.device) :
    2 ≤ y ∧ y < noSector := by
  rw [layout.dataSectors_eq owns] at member
  obtain ⟨k,inside,rfl⟩ := List.mem_map.mp member
  have natural := layout.natCast owns
  have limit := layout.limit x owns
  rw [List.mem_range,← natural,bytesToSectors_nat _ (by omega)] at inside
  have present := layout.present owns k (by omega)
  have apart := layout.data_apart owns k (by omega) present
  have marked := layout.forest.marked _ _ ((inodePart owns).key _ _ (dataPath_key k (by omega)).1) present
  have small : dataSector (img x) s.device k < noSector := marked_small _ ready.packed ready.small _ marked
  generalize dataSector (img x) s.device k = y at apart small
  have zero : y ≠ 0 := fun same => apart (Or.inl (same ▸ origin))
  have one : y ≠ 1 := fun same => apart (Or.inr (same ▸ root))
  exact ⟨by omega,small⟩

theorem Serving.listing (serving : Serving reserved dirty spelled img s) : Listing img s := by
  refine ⟨serving.image,serving.root,fun x owns => serving.layout.backed owns,fun x owns =>
    serving.layout.sectors serving.ready serving.origin owns_root owns,fun i listed => ?_,serving.apart,
    fun x owns => serving.nonzero owns⟩
  have marked := serving.layout.marked _ (owns_listed listed)
  exact Nat.ne_of_lt (marked_small _ serving.ready.packed serving.ready.small _ marked)

/-- The state between two commands that leave the working directory closed. -/
theorem Serving.fileState (serving : Serving reserved dirty spelled img s) : FileState img s := by
  have absent := serving.absent_root
  refine ⟨serving.listing,⟨fun p member ahead => ?_,fun x ahead => serving.closed x (ahead_owns ahead),
    fun p member _ _ root _ => absurd root (absent p member)⟩,fun dir set => ?_⟩
  · rcases serving.opened p member with zero | ⟨entry,listed,here⟩
    · exact absurd zero (serving.nonzero (ahead_owns ahead))
    · obtain ⟨q,i,pos,file⟩ := serving.files entry listed
      rw [file.file_eq] at here
      obtain rfl : q = p := here
      have inode : s.vars.handles.inode q = _ := ObjectHeap.deref_of_cell _ _ _ file.cell
      rw [file.sector_eq,inode]
      exact ⟨rfl,rfl,rfl⟩
  · rw [serving.unset] at set
    exact absurd set (Option.some_ne_none dir).symm

end

end MyShell.FS
