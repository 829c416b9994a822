import MyShell.FS.Access

/-! A mounted file system between two operations: the blocks of the root directory and
of the files it lists are laid out without overlap, and nothing but the free map file
is open. -/
namespace MyShell.FS
open BlockProgram PointerForest Bitmap

/-- The bytes of the root directory. -/
def rootArray (s : Volume) : List Byte := contents (s.device rootDirSector) s.device

/-- The free map file is open once, as the file `f` on the inode `p`. -/
structure MapOpen (h : Handles) (f p : Nat) (i : Inode) : Prop where
  pointer : h.freeMapFile = some f
  file : h.file f = ⟨p,0,false⟩
  cell : h.inodes.cell p = some i
  once : i.openCnt = 1
  kept : i.removed = false
  alone : h.openInodes = [p]
  sector : i.sector = freeMapSector
  held : h.files.cell f = some ⟨p,0,false⟩

/-- Only the free map file is open. -/
structure Idle (h : Handles) : Prop where
  unset : h.cwd = none
  table : h.fileTable = []
  only : ∀ p ∈ h.openInodes, (h.inode p).sector = freeMapSector
  mapped : ∃ f p i, MapOpen h f p i

structure Mounted (reserved dirty : Nat → Prop) (s : Volume) : Prop where
  layout : Layout reserved (Owns (rootArray s)) s.device s
  ready : Ready reserved dirty s
  origin : reserved freeMapSector
  idle : Idle s.vars.handles
  root : RootArray (rootArray s)
  apart : ∀ i, ListedAt (rootArray s) i → (entryAt (rootArray s) i).inodeSector ≠ rootDirSector
  regular : ∀ i, ListedAt (rootArray s) i → (s.device (entryAt (rootArray s) i).inodeSector).isDir = false

section
variable {reserved dirty : Nat → Prop} {s t : Volume} {h h' : Handles} {a : List Byte} {x i : Nat}

theorem Idle.unopened (idle : Idle h) (other : x ≠ freeMapSector) : h.Unopened x := by
  intro p member
  rw [idle.only p member]
  exact other.symm

theorem Idle.live (idle : Idle h) : Live h := by
  obtain ⟨f,p,i,opened⟩ := idle.mapped
  intro g pointer
  obtain rfl : f = g := Option.some.inj (opened.pointer.symm.trans pointer)
  exact ⟨i,by rw [opened.file]; exact opened.cell⟩

theorem Idle.closed (idle : Idle h) : RootClosed h := ⟨idle.unset,idle.unopened (by decide),idle.live⟩

theorem Idle.same (idle : Idle h) (same : h.Same h') : Idle h' := by
  refine ⟨same.cwd.trans idle.unset,same.fileTable.trans idle.table,fun p member => ?_,?_⟩
  · rw [same.inode_eq]
    exact idle.only p (same.openInodes ▸ member)
  · obtain ⟨f,p,i,opened⟩ := idle.mapped
    exact ⟨f,p,i,same.freeMapFile.trans opened.pointer,(same.file_eq f).trans opened.file,
      (congrFun same.inodes p).trans opened.cell,opened.once,opened.kept,same.openInodes.trans opened.alone,opened.sector,
      (congrFun same.files f).trans opened.held⟩

theorem owns_root : Owns a rootDirSector := Or.inl rfl

theorem owns_listed (listed : ListedAt a i) : Owns a (entryAt a i).inodeSector := Or.inr ⟨i,listed,rfl⟩

theorem Mounted.nonzero (mounted : Mounted reserved dirty s) (owns : Owns (rootArray s) x) : x ≠ freeMapSector :=
  fun same => mounted.layout.free x owns (same ▸ mounted.origin)

/-- A listed file is ready to be opened and removed. -/
theorem Mounted.listed (mounted : Mounted reserved dirty s) (listed : ListedAt (rootArray s) i) :
    ListedFile (Owns (rootArray s)) s (entryAt (rootArray s) i).inodeSector :=
  ⟨owns_listed listed,mounted.apart i listed,mounted.regular i listed,
    mounted.idle.unopened (mounted.nonzero (owns_listed listed))⟩

/-- A mounted file system in which no inode of the root directory or of a file changed its kind. -/
theorem Mounted.keep (mounted : Mounted reserved dirty s) (same : s.vars.handles.Same t.vars.handles)
    (array : rootArray t = rootArray s) (layout : Layout reserved (Owns (rootArray s)) t.device t)
    (ready : Ready reserved dirty t)
    (kind : ∀ z, Owns (rootArray s) z → (t.device z).isDir = (s.device z).isDir) : Mounted reserved dirty t where
  layout := array.symm ▸ layout
  ready := ready
  origin := mounted.origin
  idle := mounted.idle.same same
  root := array.symm ▸ mounted.root
  apart := array.symm ▸ mounted.apart
  regular := by
    rw [array]
    intro i listed
    rw [kind _ (owns_listed listed)]
    exact mounted.regular i listed

/-- A write to a file leaves the array of the root directory as it is. -/
theorem Aside.rootArray_eq {owner : Nat → Prop} {img : Nat → Sector} {done : Bool}
    (aside : Aside reserved dirty owner img x done s t) (owns : owner rootDirSector) (apart : x ≠ rootDirSector)
    (image : img rootDirSector = s.device rootDirSector) : rootArray t = rootArray s := by
  have bytes := aside.files rootDirSector owns apart.symm
  unfold rootArray
  rw [aside.inodes rootDirSector owns apart.symm,← image]
  exact bytes

theorem Refused.rootArray_eq {owner : Nat → Prop} {done : Bool} {leaked : Nat}
    (refused : Refused reserved dirty owner s t done leaked) (owns : owner rootDirSector) : rootArray t = rootArray s := by
  unfold rootArray
  rw [refused.kept.inodes _ owns,refused.kept.files _ owns]

theorem Stored.rootArray_eq {owner : Nat → Prop} {buffer : List Byte} {ofs n : Nat} {done : Bool}
    (stored : Stored reserved dirty owner s t x buffer ofs n done) (owns : owner rootDirSector)
    (apart : x ≠ rootDirSector) : rootArray t = rootArray s := by
  unfold rootArray
  rw [stored.inodes _ owns apart.symm,stored.files _ owns apart.symm]

/-- After a `filesys_create` that failed. -/
theorem Mounted.refused {done : Bool} {leaked : Nat} (mounted : Mounted reserved dirty s)
    (same : s.vars.handles.Same t.vars.handles)
    (refused : Refused reserved dirty (Owns (rootArray s)) s t done leaked) :
    Mounted reserved dirty t ∧ rootArray t = rootArray s := by
  have array := refused.rootArray_eq owns_root
  exact ⟨mounted.keep same array refused.layout refused.ready fun z inside => by rw [refused.kept.inodes z inside],array⟩

/-- After a write to a listed file. -/
theorem Mounted.stored {buffer : List Byte} {ofs n : Nat} {done : Bool} (mounted : Mounted reserved dirty s)
    (same : s.vars.handles.Same t.vars.handles) (apart : x ≠ rootDirSector)
    (stored : Stored reserved dirty (Owns (rootArray s)) s t x buffer ofs n done) :
    Mounted reserved dirty t ∧ rootArray t = rootArray s := by
  have array := stored.rootArray_eq owns_root apart
  refine ⟨mounted.keep same array stored.layout stored.ready fun z inside => ?_,array⟩
  by_cases here : z = x
  · rw [here]
    have word := stored.header 125 (by decide) (by decide) (by decide)
    exact isDir_congr _ _ word
  · rw [stored.inodes z inside here]

theorem Layout.congr_owner {owner owner' : Nat → Prop} {img : Nat → Sector} (layout : Layout reserved owner img s)
    (same : ∀ z, owner' z ↔ owner z) : Layout reserved owner' img s :=
  (funext fun z => propext (same z) : owner' = owner) ▸ layout

/-- After a `filesys_create` that succeeded. -/
theorem Mounted.made {name : CString} {size : Int} (mounted : Mounted reserved dirty s)
    (same : s.vars.handles.Same t.vars.handles)
    (made : Made reserved dirty (Owns (rootArray s)) s t x name size) :
    Mounted reserved dirty t ∧
      rootArray t = arrayWrite (rootArray s) (newEntry name x).bytes (36 * freeSlot (rootArray s)) 36 := by
  obtain ⟨positive,slot,free⟩ := freeSlot_spec mounted.root.self mounted.root.used
  have unowned : ¬Owns (rootArray s) x := fun owns => by
    have marked := mounted.layout.marked x owns
    rw [made.clear] at marked
    contradiction
  have small : x < 4294967296 :=
    (marked_small _ made.ready.packed made.ready.small x (made.layout.marked x (Or.inr rfl))).trans (by decide)
  have stored := newEntry_bytes name x small
  have array : rootArray t = arrayWrite (rootArray s) (newEntry name x).bytes (36 * freeSlot (rootArray s)) 36 := made.root
  have entry (k : Nat) (listed : ListedAt (rootArray t) k) :
      entryAt (rootArray t) k = if k = freeSlot (rootArray s) then newEntry name x else entryAt (rootArray s) k := by
    rw [array] at listed ⊢
    exact entryAt_listed slot stored listed
  have old (k : Nat) (listed : ListedAt (rootArray t) k) (other : k ≠ freeSlot (rootArray s)) :
      ListedAt (rootArray s) k := by
    rw [array,listedAt_write slot positive stored,if_neg other] at listed
    exact listed
  refine ⟨⟨?_,made.ready,mounted.origin,mounted.idle.same same,?_,fun k listed => ?_,fun k listed => ?_⟩,array⟩
  · rw [array]
    exact made.layout.congr_owner fun z => owns_add slot positive free stored rfl z
  · rw [array]
    refine mounted.root.write slot positive stored fun _ k listed _ equal => unowned ?_
    have owned := owns_listed listed
    rwa [equal] at owned
  · rw [entry k listed]
    split
    · exact fun equal => unowned (Or.inl equal)
    · rename_i other
      exact mounted.apart k (old k listed other)
  · rw [entry k listed]
    split
    · exact made.regular
    · rename_i other
      have before := old k listed other
      rw [made.inodes _ (owns_listed before) (mounted.apart k before)]
      exact mounted.regular k before

/-- After a `filesys_remove` that found the name. -/
theorem Mounted.removed (mounted : Mounted reserved dirty s) (same : s.vars.handles.Same t.vars.handles)
    (listed : ListedAt (rootArray s) i)
    (removed : Removed reserved dirty (Owns (rootArray s)) s t i (entryAt (rootArray s) i).inodeSector) :
    Mounted reserved dirty t ∧
      rootArray t = arrayWrite (rootArray s) (erasedEntry (rootArray s) i).bytes (36*i) 36 := by
  have slot := Nat.le_of_lt listed.inside
  have stored := erasedEntry_bytes (rootArray s) i listed.inside
  have array : rootArray t = arrayWrite (rootArray s) (erasedEntry (rootArray s) i).bytes (36*i) 36 := removed.root
  have old (k : Nat) (after : ListedAt (rootArray t) k) :
      k ≠ i ∧ ListedAt (rootArray s) k ∧ entryAt (rootArray t) k = entryAt (rootArray s) k := by
    rw [array] at after ⊢
    have entry := entryAt_listed slot stored after
    rw [listedAt_write slot listed.positive stored] at after
    split at after
    · exact absurd after Bool.false_ne_true
    · rename_i other
      rw [if_neg other] at entry
      exact ⟨other,after,entry⟩
  refine ⟨⟨?_,removed.ready,mounted.origin,mounted.idle.same same,?_,fun k after => ?_,fun k after => ?_⟩,array⟩
  · rw [array]
    exact removed.layout.congr_owner fun z => owns_erase mounted.root listed stored rfl (mounted.apart i listed) z
  · rw [array]
    exact mounted.root.write slot listed.positive stored fun contrary => absurd contrary Bool.false_ne_true
  · obtain ⟨-,before,entry⟩ := old k after
    rw [entry]
    exact mounted.apart k before
  · obtain ⟨other,before,entry⟩ := old k after
    rw [entry,removed.inodes _ (owns_listed before) fun equal => other (mounted.root.distinct k i before listed equal)]
    exact mounted.regular k before

end
end MyShell.FS
