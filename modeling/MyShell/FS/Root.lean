import MyShell.FS.Entries

/-! The root directory and the files it lists: how the list changes, and what
`dir_add` and `dir_remove` do to it. -/
namespace MyShell.FS
open BlockProgram PointerForest Bitmap

/-- A root directory: whole entries, the first one in use, and no sector listed twice. -/
structure RootArray (a : List Byte) : Prop where
  whole : a.length = 36 * entryCount a
  self : 0 < entryCount a
  used : (entryAt a 0).inUse = true
  distinct : ∀ i j, ListedAt a i → ListedAt a j → (entryAt a i).inodeSector = (entryAt a j).inodeSector → i = j

/-- The inode sectors of the root directory and of the files it lists. -/
def Owns (a : List Byte) (x : Nat) : Prop := x = rootDirSector ∨ ∃ i, ListedAt a i ∧ (entryAt a i).inodeSector = x

/-- The slot that `dir_add` takes. -/
def freeSlot (a : List Byte) : Nat := stopAt a (fun e => !e.inUse) 0

/-- The entry that `lookup` finds. -/
def findName (a : List Byte) (name : CString) : Option Nat := findEntry a (nameTest name) 1

section
variable {a : List Byte} {e : DirEntry} {i k : Nat} {name : CString}

theorem freeSlot_spec (self : 0 < entryCount a) (used : (entryAt a 0).inUse = true) :
    1 ≤ freeSlot a ∧ freeSlot a ≤ entryCount a ∧ ¬ListedAt a (freeSlot a) := by
  unfold freeSlot stopAt
  cases found : findEntry a (fun e => !e.inUse) 0 with
  | none =>
    simp only [Option.getD_none,Nat.zero_max]
    exact ⟨self,Nat.le_refl _,fun listed => Nat.lt_irrefl _ listed.inside⟩
  | some i =>
    obtain ⟨_,inside,clear,_⟩ := findEntry_some a _ _ _ found
    simp only [Option.getD_some]
    refine ⟨?_,Nat.le_of_lt inside,fun listed => ?_⟩
    · rcases Nat.eq_zero_or_pos i with rfl | positive
      · rw [used] at clear
        exact absurd clear (by decide)
      · exact positive
    · rw [listed.used] at clear
      exact absurd clear (by decide)

theorem findName_listed (found : findName a name = some i) : ListedAt a i ∧ name = (entryAt a i).nameString := by
  obtain ⟨low,inside,matching,_⟩ := findEntry_some a _ _ _ found
  obtain ⟨used,same⟩ := Bool.and_eq_true_iff.mp matching
  exact ⟨⟨low,inside,used⟩,by simpa using same⟩

theorem entryCount_write (a : List Byte) (e : DirEntry) (i : Nat) :
    entryCount (arrayWrite a e.bytes (36*i) 36) = max (entryCount a) (i+1) := by
  have length := length_arrayWrite a e.bytes (36*i) 36
  unfold entryCount at *
  omega

/-- The listed entries after one was stored. -/
theorem listedAt_write (slot : i ≤ entryCount a) (positive : 1 ≤ i)
    (stored : DirEntry.ofBytes e.bytes = e) :
    ListedAt (arrayWrite a e.bytes (36*i) 36) k ↔ if k = i then e.inUse = true else ListedAt a k := by
  have count := entryCount_write a e i
  constructor
  · rintro ⟨low,inside,used⟩
    rw [count] at inside
    rw [entryAt_write slot inside] at used
    split
    · rename_i here
      rwa [if_pos here,stored] at used
    · rename_i other
      rw [if_neg other] at used
      exact ⟨low,by omega,used⟩
  · intro listed
    split at listed
    · rename_i here
      subst here
      refine ⟨positive,by omega,?_⟩
      rw [entryAt_write slot (by omega),if_pos rfl,stored]
      exact listed
    · rename_i other
      refine ⟨listed.positive,by have := listed.inside; omega,?_⟩
      rw [entryAt_write slot (by have := listed.inside; omega),if_neg other]
      exact listed.used

theorem entryAt_listed (slot : i ≤ entryCount a)
    (stored : DirEntry.ofBytes e.bytes = e) (listed : ListedAt (arrayWrite a e.bytes (36*i) 36) k) :
    entryAt (arrayWrite a e.bytes (36*i) 36) k = if k = i then e else entryAt a k := by
  have count := entryCount_write a e i
  rw [entryAt_write slot (count ▸ listed.inside),stored]

/-- Storing an entry that keeps the sectors distinct. -/
theorem RootArray.write (root : RootArray a) (slot : i ≤ entryCount a) (positive : 1 ≤ i)
    (stored : DirEntry.ofBytes e.bytes = e)
    (fresh : e.inUse = true → ∀ k, ListedAt a k → k ≠ i → (entryAt a k).inodeSector ≠ e.inodeSector) :
    RootArray (arrayWrite a e.bytes (36*i) 36) := by
  have count := entryCount_write a e i
  have length := length_arrayWrite a e.bytes (36*i) 36
  refine ⟨by rw [length,count,root.whole]; omega,by omega,?_,fun j k first second same => ?_⟩
  · rw [entryAt_write slot (by omega),if_neg (by omega)]
    exact root.used
  · rw [entryAt_listed slot stored first,entryAt_listed slot stored second] at same
    rw [listedAt_write slot positive stored] at first second
    by_cases left : j = i <;> by_cases right : k = i
    · rw [left,right]
    · simp only [if_pos left,if_neg right] at first second same
      exact absurd same.symm (fresh first k second right)
    · simp only [if_neg left,if_pos right] at first second same
      exact absurd same (fresh second j first left)
    · simp only [if_neg left,if_neg right] at first second same
      exact root.distinct j k first second same

/-- The owners after an entry was added. -/
theorem owns_add (slot : i ≤ entryCount a) (positive : 1 ≤ i) (free : ¬ListedAt a i)
    (stored : DirEntry.ofBytes e.bytes = e) (used : e.inUse = true) (x : Nat) :
    Owns (arrayWrite a e.bytes (36*i) 36) x ↔ Owns a x ∨ x = e.inodeSector := by
  have listed (k : Nat) := listedAt_write (k := k) slot positive stored
  constructor
  · rintro (rfl | ⟨k,there,same⟩)
    · exact Or.inl (Or.inl rfl)
    · rw [entryAt_listed slot stored there] at same
      rw [listed] at there
      split at same
      · exact Or.inr same.symm
      · rename_i other
        rw [if_neg other] at there
        exact Or.inl (Or.inr ⟨k,there,same⟩)
  · rintro ((rfl | ⟨k,there,same⟩) | rfl)
    · exact Or.inl rfl
    · have other : k ≠ i := fun equal => free (equal ▸ there)
      have after := (listed k).mpr (by rw [if_neg other]; exact there)
      exact Or.inr ⟨k,after,by rw [entryAt_listed slot stored after,if_neg other]; exact same⟩
    · have after := (listed i).mpr (by rw [if_pos rfl]; exact used)
      exact Or.inr ⟨i,after,by rw [entryAt_listed slot stored after,if_pos rfl]⟩

/-- The owners after an entry was taken out of use. -/
theorem owns_erase (root : RootArray a) (there : ListedAt a i) (stored : DirEntry.ofBytes e.bytes = e)
    (unused : e.inUse = false) (file : (entryAt a i).inodeSector ≠ rootDirSector) (x : Nat) :
    Owns (arrayWrite a e.bytes (36*i) 36) x ↔ Owns a x ∧ x ≠ (entryAt a i).inodeSector := by
  have slot := Nat.le_of_lt there.inside
  have listed (k : Nat) := listedAt_write (k := k) slot there.positive stored
  constructor
  · rintro (rfl | ⟨k,here,same⟩)
    · exact ⟨Or.inl rfl,file.symm⟩
    · rw [entryAt_listed slot stored here] at same
      rw [listed] at here
      split at here
      · rw [unused] at here
        exact absurd here (by decide)
      · rename_i other
        rw [if_neg other] at same
        refine ⟨Or.inr ⟨k,here,same⟩,fun equal => other ?_⟩
        exact root.distinct k i here there (same.trans equal)
  · rintro ⟨rfl | ⟨k,here,same⟩,other⟩
    · exact Or.inl rfl
    · have apart : k ≠ i := fun equal => other (by rw [← same,equal])
      have after := (listed k).mpr (by rw [if_neg apart]; exact here)
      exact Or.inr ⟨k,after,by rw [entryAt_listed slot stored after,if_neg apart]; exact same⟩

end

section
variable {reserved dirty owner : Nat → Prop} {img : Nat → Sector} {s t : Volume} {x p dir : Nat} {inode : Inode}

/-- A name that `dir_add` refuses. -/
def BadName (a : List Byte) (name : CString) : Prop :=
  strlen name = 0 ∨ strlen name > nameMax ∨ (findName a name).isSome = true

instance (a : List Byte) (name : CString) : Decidable (BadName a name) := inferInstanceAs (Decidable (_ ∨ _ ∨ _))

/-- The entry that `dir_add` stores. -/
def newEntry (name : CString) (sector : Nat) : DirEntry := ⟨sector,strncpy name 31,true⟩

theorem nameTest_newEntry (name : CString) (sector : Nat) (fits : strlen name ≤ nameMax) :
    nameTest name (newEntry name sector) = true := by
  unfold nameTest DirEntry.nameString newEntry
  rw [nameString_strncpy name fits,Bool.true_and]
  exact beq_self_eq_true name

theorem newEntry_bytes (name : CString) (sector : Nat) (small : sector < 4294967296) :
    DirEntry.ofBytes (newEntry name sector).bytes = newEntry name sector :=
  ofBytes_bytes _ small (length_strncpy _ _)

/-- The entry that a name is looked up by, after it was added. -/
theorem findName_new {sector : Nat} (self : 0 < entryCount a) (used : (entryAt a 0).inUse = true) (small : sector < 4294967296) (good : ¬BadName a name) :
    findName (arrayWrite a (newEntry name sector).bytes (36 * freeSlot a) 36) name = some (freeSlot a) := by
  obtain ⟨positive,slot,-⟩ := freeSlot_spec self used
  have entry (k : Nat) (inside : k < max (entryCount a) (freeSlot a + 1)) := entryAt_write slot inside
    (e := newEntry name sector)
  have count := entryCount_write a (newEntry name sector) (freeSlot a)
  unfold BadName at good
  rw [not_or,not_or] at good
  obtain ⟨-,fits,absent⟩ := good
  refine findEntry_unique _ _ _ _ positive (by omega) ?_ fun k low high other => ?_
  · rw [entry _ (by omega),if_pos rfl,newEntry_bytes _ _ small]
    exact nameTest_newEntry name sector (Nat.le_of_not_lt fits)
  · rw [count] at high
    rw [entry k high,if_neg other]
    exact findEntry_none a _ 1 (Option.not_isSome_iff_eq_none.mp absent) k low (by omega)

theorem freeSlot_le (a : List Byte) : freeSlot a ≤ entryCount a := by
  unfold freeSlot stopAt
  cases found : findEntry a (fun e => !e.inUse) 0 with
  | none => simp
  | some i => exact Nat.le_of_lt (findEntry_some a _ _ _ found).2.1

theorem lookup_backed {d : Sector} (backed : Backed d s.device)
    (data : (s.vars.handles.inode p).data = d) (opened : (s.vars.handles.dir dir).inode = p) (name : CString) :
    (lookup dir name).exec s = ((findName (contents d s.device) name).map fun i =>
      (entryAt (contents d s.device) i,((36*i : Nat) : Int)),s) := by
  have scan := scanDirectory_backed backed data (nameTest name) sizeofDirEntry 1 rfl
  unfold lookup dirGetInode
  simp only [Task.exec_bind,exec_getHandles,Task.exec_pure,opened,scan,findName,stopAt]
  cases findEntry (contents d s.device) (nameTest name) 1 <;> rfl

theorem lookup_spec (layout : Layout reserved owner img s) (owns : owner x)
    (data : (s.vars.handles.inode p).data = img x) (opened : (s.vars.handles.dir dir).inode = p) (name : CString) :
    (lookup dir name).exec s = ((findName (contents (img x) s.device) name).map fun i =>
      (entryAt (contents (img x) s.device) i,((36*i : Nat) : Int)),s) :=
  lookup_backed (layout.backed owns) data opened name

/-- The write of a new entry. -/
theorem dirAddSlot_spec (layout : Layout reserved owner img s) (ready : Ready reserved dirty s) (origin : reserved 0)
    (owns : owner x) (holds : Holds img s p x inode) (opened : (s.vars.handles.dir dir).inode = p) (name : CString)
    (sector : Nat) :
    ∃ done t d, (dirAddSlot dir name sector).exec s =
        (done && decide (36 * freeSlot (contents (img x) s.device) + 36 ≤ 8517120),t) ∧
      WriteOutcome reserved dirty owner img s t p x (newEntry name sector).bytes
        (36 * freeSlot (contents (img x) s.device)) 36 done d := by
  have limit := layout.limit x owns
  have data : (s.vars.handles.inode p).data = img x := by rw [holds.inode_eq,holds.data]
  have few : entryCount (contents (img x) s.device) ≤ 8517120 / 36 := by
    unfold entryCount
    rw [length_contents]
    omega
  have slot := freeSlot_le (contents (img x) s.device)
  obtain ⟨write,isWrite,steps⟩ := inodeWriteAt_step s
  obtain ⟨done,t,d,run,outcome⟩ := writeStep_spec isWrite layout ready origin owns holds (newEntry name sector).bytes
    (36 * freeSlot (contents (img x) s.device)) 36 (by decide) (by omega)
  refine ⟨done,t,d,?_,outcome⟩
  have scan := scanDirectory_spec layout owns data (fun e => !e.inUse) 0 0 rfl
  have written := steps p (newEntry name sector).bytes ((36 : Nat) : Int) ((36 * freeSlot (contents (img x) s.device) : Nat) : Int)
  rw [run] at written
  unfold dirAddSlot dirGetInode
  unfold freeSlot newEntry at written
  unfold freeSlot
  simp only [Task.exec_bind,exec_getHandles,Task.exec_pure,opened,scan,written]
  rw [complete_write done _ 36 (by decide)]

/-- `dir_add` of a regular file. -/
theorem dirAdd_spec (stale : List Byte) (layout : Layout reserved owner img s) (ready : Ready reserved dirty s)
    (origin : reserved 0) (owns : owner x) (holds : Holds img s p x inode)
    (opened : (s.vars.handles.dir dir).inode = p) (name : CString) (sector : Nat) :
    (BadName (contents (img x) s.device) name ∧ (dirAdd stale dir name sector false).exec s = (false,s)) ∨
    ¬BadName (contents (img x) s.device) name ∧ ∃ done t d, (dirAdd stale dir name sector false).exec s =
        (done && decide (36 * freeSlot (contents (img x) s.device) + 36 ≤ 8517120),t) ∧
      WriteOutcome reserved dirty owner img s t p x (newEntry name sector).bytes
        (36 * freeSlot (contents (img x) s.device)) 36 done d := by
  have data : (s.vars.handles.inode p).data = img x := by rw [holds.inode_eq,holds.data]
  have search := lookup_spec layout owns data opened name
  have slot := dirAddSlot_spec layout ready origin owns holds opened name sector
  unfold dirAdd BadName
  by_cases invalid : strlen name = 0 ∨ strlen name > nameMax
  · rw [if_pos invalid]
    exact Or.inl ⟨by rw [← or_assoc]; exact Or.inl invalid,rfl⟩
  · rw [if_neg invalid,Task.exec_bind,search]
    simp only [Option.isSome_map,Bool.false_eq_true,if_false,Task.exec_ite,Task.exec_bind,Task.exec_pure,if_true]
    by_cases used : (findName (contents (img x) s.device) name).isSome = true
    · rw [if_pos used]
      exact Or.inl ⟨Or.inr (Or.inr used),rfl⟩
    · rw [if_neg used]
      right
      refine ⟨?_,slot⟩
      rw [← or_assoc]
      exact fun bad => bad.elim invalid used

end
end MyShell.FS
