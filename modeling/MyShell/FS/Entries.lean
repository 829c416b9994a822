import MyShell.FS.Creation
import MyShell.FS.Handles

/-! Directories as arrays of entries: searching one and storing an entry in one. -/
namespace MyShell.FS
open BlockProgram PointerForest Bitmap

section
variable (a : List Byte) (e : DirEntry)

def entryCount : Nat := a.length / 36

def entryAt (i : Nat) : DirEntry := DirEntry.ofBytes (arrayRead a (36*i) 36)

/-- The first entry from `j` on that satisfies the test. -/
def findEntry (test : DirEntry → Bool) (j : Nat) : Option Nat :=
  (List.range' j (entryCount a - j)).find? fun i => test (entryAt a i)

/-- The offset at which a loop over the directory stops. -/
def stopAt (test : DirEntry → Bool) (j : Nat) : Nat := (findEntry a test j).getD (max j (entryCount a))

/-- The entries that name files. -/
def listedEntries : List DirEntry := ((List.range' 1 (entryCount a - 1)).map (entryAt a)).filter DirEntry.inUse

/-- The entry at `i` names a file. -/
structure ListedAt (i : Nat) : Prop where
  positive : 1 ≤ i
  inside : i < entryCount a
  used : (entryAt a i).inUse = true

theorem length_arrayRead (ofs n : Nat) : (arrayRead a ofs n).length = min n (a.length - ofs) := by
  simp [arrayRead]

theorem getD_arrayRead (ofs n i : Nat) (inside : i < n) : (arrayRead a ofs n).getD i 0 = a.getD (ofs + i) 0 := by
  simp only [arrayRead,List.getD_eq_getElem?_getD,List.getElem?_take,List.getElem?_drop,if_pos inside]

theorem findEntry_some (test : DirEntry → Bool) (j i : Nat) (found : findEntry a test j = some i) :
    j ≤ i ∧ i < entryCount a ∧ test (entryAt a i) = true ∧ ∀ k, j ≤ k → k < i → test (entryAt a k) = false := by
  obtain ⟨matching,member,earlier⟩ := List.find?_range'_eq_some.mp found
  have bounds := List.mem_range'_1.mp member
  refine ⟨bounds.1,by omega,matching,fun k low high => ?_⟩
  simpa using earlier k low high

theorem findEntry_none (test : DirEntry → Bool) (j : Nat) (missed : findEntry a test j = none) (k : Nat) (low : j ≤ k)
    (high : k < entryCount a) : test (entryAt a k) = false := by
  have absent := List.find?_eq_none.mp missed k (List.mem_range'_1.mpr ⟨low,by omega⟩)
  simpa using absent

theorem findEntry_unique (test : DirEntry → Bool) (j i : Nat) (low : j ≤ i) (inside : i < entryCount a)
    (matching : test (entryAt a i) = true)
    (others : ∀ k, j ≤ k → k < entryCount a → k ≠ i → test (entryAt a k) = false) : findEntry a test j = some i := by
  refine List.find?_range'_eq_some.mpr ⟨matching,List.mem_range'_1.mpr ⟨low,by omega⟩,fun k start before => ?_⟩
  rw [others k start (by omega) (by omega)]
  rfl

/-- One pass of the search. -/
theorem findEntry_step (test : DirEntry → Bool) (j : Nat) (inside : j < entryCount a) :
    findEntry a test j = if test (entryAt a j) then some j else findEntry a test (j+1) := by
  unfold findEntry
  rw [show entryCount a - j = (entryCount a - (j+1)) + 1 by omega,List.range'_succ,List.find?_cons]
  cases test (entryAt a j) <;> rfl

theorem findEntry_past (test : DirEntry → Bool) (j : Nat) (beyond : entryCount a ≤ j) : findEntry a test j = none := by
  unfold findEntry
  rw [show entryCount a - j = 0 by omega]
  rfl

theorem mem_listedEntries : e ∈ listedEntries a ↔ ∃ i, ListedAt a i ∧ entryAt a i = e := by
  simp only [listedEntries,List.mem_filter,List.mem_map,List.mem_range'_1]
  constructor
  · rintro ⟨⟨i,bound,same⟩,used⟩
    exact ⟨i,⟨bound.1,by omega,same ▸ used⟩,same⟩
  · rintro ⟨i,listed,same⟩
    exact ⟨⟨i,⟨listed.positive,by have := listed.positive; have := listed.inside; omega⟩,same⟩,same ▸ listed.used⟩

end

/-! Entries as bytes. -/
section
variable (e : DirEntry)

@[simp] theorem length_entryBytes : e.bytes.length = 36 := by
  simp [DirEntry.bytes]

theorem inodeSector_lt (bytes : List Byte) : (DirEntry.ofBytes bytes).inodeSector < 4294967296 := littleEndian_lt _ _ _ _

theorem length_name (a : List Byte) (i : Nat) (inside : i < entryCount a) : (entryAt a i).name.length = 31 := by
  unfold entryCount at inside
  simp only [entryAt,DirEntry.ofBytes,List.length_take,List.length_drop,length_arrayRead]
  omega

/-- An entry comes back from its bytes. -/
theorem ofBytes_bytes (sector : e.inodeSector < 4294967296) (field : e.name.length = 31) :
    DirEntry.ofBytes e.bytes = e := by
  obtain ⟨inodeSector,name,inUse⟩ := e
  simp only at sector field
  have copied : (List.range 31).map (fun i => name.getD i 0) = name := by
    apply List.ext_getElem
    · simp [field]
    · intro i left right
      simp [List.getD_eq_getElem?_getD,right]
  have front : (List.range 4).map (byteOf inodeSector) =
      [byteOf inodeSector 0,byteOf inodeSector 1,byteOf inodeSector 2,byteOf inodeSector 3] := rfl
  have flag : (if inUse then (1 : Byte) else 0) ≠ 0 ↔ inUse = true := by cases inUse <;> decide
  simp only [DirEntry.bytes,copied,front,DirEntry.ofBytes,DirEntry.mk.injEq]
  refine ⟨littleEndian_byteOf inodeSector sector,?_,?_⟩
  · simp [← field]
  · rw [Bool.eq_iff_iff,bne_iff_ne]
    simp [List.getD_eq_getElem?_getD,field,flag]

/-- A name that fits comes back from its field. -/
theorem nameString_strncpy (name : CString) (fits : strlen name ≤ 30) : CString.ofBuffer (strncpy name 31) = name := by
  unfold strlen at fits
  have field : strncpy name 31 = name.chars ++ List.replicate (31 - name.chars.length) 0 := by
    apply List.ext_getElem
    · simp [strncpy]
      omega
    · intro i left right
      simp only [strncpy,List.getElem_map,List.getElem_range,List.getD_eq_getElem?_getD,List.getElem_append]
      split
      · rename_i inside
        rw [List.getElem?_eq_getElem inside,Option.getD_some]
      · rename_i beyond
        rw [List.getElem?_eq_none (by omega),Option.getD_none,List.getElem_replicate]
  apply CString.ext
  have keep : ∀ c ∈ name.chars, decide (c ≠ 0) = true := by
    intro c member
    exact decide_eq_true fun null => name.noNull (null ▸ member)
  change (strncpy name 31).takeWhile (· ≠ 0) = name.chars
  rw [field,List.takeWhile_append_of_pos keep,show 31 - name.chars.length = (30 - name.chars.length) + 1 by omega,
    List.replicate_succ]
  simp

theorem length_strncpy (name : CString) (n : Nat) : (strncpy name n).length = n := by
  simp [strncpy]

end

section
variable {a : List Byte} {e : DirEntry} {i k : Nat}

/-- A directory after an entry was stored in a slot of it, or right behind it. -/
theorem entryAt_write (slot : i ≤ entryCount a) (inside : k < max (entryCount a) (i+1)) :
    entryAt (arrayWrite a e.bytes (36*i) 36) k = if k = i then DirEntry.ofBytes e.bytes else entryAt a k := by
  have bytes : arrayRead (arrayWrite a e.bytes (36*i) 36) (36*k) 36 = if k = i then e.bytes else arrayRead a (36*k) 36 := by
    unfold entryCount at slot inside
    apply List.ext_getElem
    · rw [length_arrayRead,length_arrayWrite]
      split
      · rw [length_entryBytes]
        omega
      · rw [length_arrayRead]
        omega
    · intro j left right
      have small : j < 36 := by
        rw [length_arrayRead] at left
        omega
      have place : 36*k+j < (arrayWrite a e.bytes (36*i) 36).length := by
        rw [length_arrayWrite]
        omega
      have written : (arrayRead (arrayWrite a e.bytes (36*i) 36) (36*k) 36)[j] =
          if 36*i ≤ 36*k+j ∧ 36*k+j < 36*i+36 then e.bytes.getD (36*k+j-36*i) 0 else a.getD (36*k+j) 0 := by
        simp only [arrayRead,List.getElem_take,List.getElem_drop]
        exact getElem_arrayWrite _ _ _ _ _ place
      rw [written]
      split
      · rename_i here
        obtain rfl : k = i := by omega
        simp [List.getD_eq_getElem?_getD,length_entryBytes,small]
      · rename_i other
        have away : k ≠ i := by omega
        have old : 36*k+j < a.length := by omega
        simp [arrayRead,away,List.getD_eq_getElem?_getD,old]
  unfold entryAt
  rw [bytes]
  split <;> rfl

end

section
variable {reserved dirty owner : Nat → Prop} {img : Nat → Sector} {s t : Volume} {x p : Nat} {inode : Inode}

theorem scanEntries_backed {d : Sector} (backed : Backed d s.device)
    (data : (s.vars.handles.inode p).data = d) (test : DirEntry → Bool) (fuel j : Nat)
    (enough : entryCount (contents d s.device) < fuel + j) :
    (scanEntries p test fuel (36*j : Nat)).exec s =
      (((findEntry (contents d s.device) test j).map (entryAt (contents d s.device)),
        ((36 * stopAt (contents d s.device) test j : Nat) : Int)),s) := by
  induction fuel generalizing j with
  | zero =>
    have past := findEntry_past (contents d s.device) test j (by omega)
    rw [scanEntries,stopAt,past,Option.getD_none,Nat.max_eq_left (by omega)]
    rfl
  | succ fuel ih =>
    have read := inodeReadAt_backed backed p data 36 (36*j)
    have whole : (arrayRead (contents d s.device) (36*j) 36).length = 36 ↔ j < entryCount (contents d s.device) := by
      rw [length_arrayRead]
      unfold entryCount
      omega
    rw [scanEntries,Task.exec_bind,show ((sizeofDirEntry : Nat) : Int) = ((36 : Nat) : Int) from rfl,read]
    simp only [Task.exec_ite,whole,Task.exec_pure]
    by_cases inside : j < entryCount (contents d s.device)
    · rw [if_pos inside,stopAt,findEntry_step _ test j inside]
      change (if test (entryAt (contents d s.device) j) = true then _ else _) = _
      by_cases found : test (entryAt (contents d s.device) j) = true
      · rw [if_pos found,if_pos found]
        rfl
      · rw [if_neg found,if_neg found,show ((36*j : Nat) : Int) + ((36 : Nat) : Int) = (36*(j+1) : Nat) by omega,
          ih (j+1) (by omega),stopAt,Nat.max_eq_right (Nat.le_of_lt inside),Nat.max_eq_right inside]
    · rw [if_neg inside,stopAt,findEntry_past _ test j (by omega),Option.getD_none,Nat.max_eq_left (by omega)]
      rfl

theorem scanDirectory_backed {d : Sector} (backed : Backed d s.device)
    (data : (s.vars.handles.inode p).data = d) (test : DirEntry → Bool) (ofs : Int) (j : Nat)
    (place : ofs = (36*j : Nat)) :
    (scanDirectory p test ofs).exec s =
      (((findEntry (contents d s.device) test j).map (entryAt (contents d s.device)),
        ((36 * stopAt (contents d s.device) test j : Nat) : Int)),s) := by
  subst place
  unfold scanDirectory inodeLength
  simp only [Task.exec_bind,exec_getHandles,Task.exec_pure,data]
  apply scanEntries_backed backed data
  unfold entryCount
  rw [length_contents]
  omega

theorem scanDirectory_spec (layout : Layout reserved owner img s) (owns : owner x)
    (data : (s.vars.handles.inode p).data = img x) (test : DirEntry → Bool) (ofs : Int) (j : Nat)
    (place : ofs = (36*j : Nat)) :
    (scanDirectory p test ofs).exec s =
      (((findEntry (contents (img x) s.device) test j).map (entryAt (contents (img x) s.device)),
        ((36 * stopAt (contents (img x) s.device) test j : Nat) : Int)),s) :=
  scanDirectory_backed (layout.backed owns) data test ofs j place

end
end MyShell.FS
