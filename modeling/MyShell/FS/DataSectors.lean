import MyShell.FS.Creation
import MyShell.FS.Session

/-! `get_inode_data_sectors`, which walks the whole block map in order, against
`index_to_sector`, which looks up one index. -/
namespace MyShell.FS
open BlockProgram

/-- The loop that appends the words of a block to `sectors`. -/
def copyBlocks (block : Sector) : Nat → Nat → List Nat → List Nat
  | 0, _, sectors => sectors
  | count+1, i, sectors => copyBlocks block count (i+1) (sectors ++ [block.word i])

/-- The loop over the second-level blocks. -/
def copySecondLevel (indirectBlock : Sector) : Nat → Nat → Nat → List Nat → FsM (List Nat)
  | 0, _, _, sectors => pure sectors
  | count+1, i, numSectors2, sectors => do
    let subsize := min numSectors2 128
    let indirectBlock2 ← bufferRead (indirectBlock.word i)
    copySecondLevel indirectBlock count (i+1) (numSectors2 - subsize) (copyBlocks indirectBlock2 subsize 0 sectors)

/-- Part (2) of `get_inode_data_sectors`, the indirect block. -/
def indirectSectors (data : Sector) (l : Nat) (sectors : List Nat) : FsM (List Nat) :=
  if l > 0 then do
    let indirectBlock ← bufferRead data.indirectBlock
    pure (copyBlocks indirectBlock l 0 sectors)
  else pure sectors

/-- Part (3), the doubly indirect block. -/
def doublyIndirectSectors (data : Sector) (l : Nat) (sectors : List Nat) : FsM (List Nat) :=
  if l > 0 then do
    let indirectBlock ← bufferRead data.doublyIndirectBlock
    copySecondLevel indirectBlock ((l + 128 - 1) / 128) 0 l sectors
  else pure sectors

/-- `none` is the null pointer of an inode of negative length. -/
def getInodeDataSectors (inode : Nat) : FsM (Option (List Nat)) := do
  let data := ((← getHandles).inode inode).data
  if data.length < 0 then pure none
  else do
    let numSectors := bytesToSectors data.length
    let l₁ := min numSectors 123
    let l₂ := min (numSectors - l₁) 128
    let l₃ := min (numSectors - l₁ - l₂) 16384
    let sectors ← indirectSectors data l₂ (copyBlocks data l₁ 0 [])
    let sectors ← doublyIndirectSectors data l₃ sectors
    panicUnless (numSectors - l₁ - l₂ - l₃ == 0)
    pure (some sectors)

/-- The sector that `index_to_sector` finds. -/
def sectorAt (d : Sector) (mem : Nat → Sector) (index : Nat) : Nat :=
  if index < 123 then d.directBlock index
  else if index < 251 then (mem d.indirectBlock).word (index - 123)
  else if index < 16635 then
    (mem ((mem d.doublyIndirectBlock).word ((index - 251) / 128))).word ((index - 251) % 128)
  else noSector

section
variable {s : Volume}

theorem exec_indexToSector_sectorAt (d : Sector) (index : Nat) (s : Volume) :
    (indexToSector d index).exec s = (sectorAt d s.device index,s) := by
  unfold indexToSector sectorAt
  simp only [Task.exec_ite,Task.exec_bind,exec_bufferRead,Task.exec_pure]
  repeat' split
  all_goals rfl

theorem copyBlocks_eq (block : Sector) (count i : Nat) (sectors : List Nat) :
    copyBlocks block count i sectors = sectors ++ (List.range count).map fun j => block.word (i + j) := by
  induction count generalizing i sectors with
  | zero => exact (List.append_nil sectors).symm
  | succ count ih =>
    rw [copyBlocks,ih,List.range_succ_eq_map,List.map_cons,List.map_map,List.append_assoc,List.singleton_append,Nat.add_zero]
    refine congrArg (fun rest => sectors ++ block.word i :: rest) (List.map_congr_left fun j _ => ?_)
    exact congrArg block.word (by rw [Nat.succ_add_eq_add_succ])

/-- Each pass takes a full second-level block, but for the last. -/
theorem exec_copySecondLevel (indirectBlock : Sector) (count i n : Nat) (sectors : List Nat)
    (passes : count = (n + 128 - 1) / 128) :
    (copySecondLevel indirectBlock count i n sectors).exec s =
      (sectors ++ (List.range n).map fun j => (s.device (indirectBlock.word (i + j / 128))).word (j % 128),s) := by
  induction count generalizing i n sectors with
  | zero =>
    obtain rfl : n = 0 := by omega
    rw [List.range_zero,List.map_nil,List.append_nil]
    rfl
  | succ count ih =>
    simp only [copySecondLevel,Task.exec_bind,exec_bufferRead]
    rw [ih (i+1) (n - min n 128) _ (by omega),copyBlocks_eq,List.append_assoc]
    have split : List.range n = List.range (min n 128) ++ (List.range (n - min n 128)).map (min n 128 + ·) := by
      rw [← List.range_add,Nat.add_sub_cancel' (Nat.min_le_left n 128)]
    rw [split,List.map_append,List.map_map]
    refine congrArg (fun block => (sectors ++ block,s)) (congrArg₂ (· ++ ·) ?_ ?_)
    · refine List.map_congr_left fun j member => ?_
      have inside := List.mem_range.mp member
      rw [Nat.div_eq_of_lt (by omega),Nat.mod_eq_of_lt (by omega),Nat.add_zero,Nat.zero_add]
    · refine List.map_congr_left fun j member => ?_
      have inside := List.mem_range.mp member
      -- a pass that is not the last one is full
      have full : min n 128 = 128 := by omega
      have block : i + (128 + j) / 128 = i + 1 + j / 128 := by omega
      rw [Function.comp_apply,full,block,Nat.add_mod_left]

/-- The three regions in order are all the indices. -/
theorem range_regions (f : Nat → Nat) (n : Nat) (small : n ≤ 16635) :
    (List.range n).map f = (List.range (min n 123)).map f ++ ((List.range (min (n - 123) 128)).map (fun j => f (123 + j)) ++
      (List.range (min (n - 123 - 128) 16384)).map fun j => f (251 + j)) := by
  rcases Nat.le_total n 123 with direct | more
  · rw [Nat.min_eq_left direct,Nat.sub_eq_zero_of_le direct]
    exact (List.append_nil _).symm
  · obtain ⟨m,rfl⟩ := Nat.exists_eq_add_of_le more
    rw [Nat.min_eq_right more,Nat.add_sub_cancel_left,List.range_add,List.map_append,List.map_map]
    refine congrArg _ ?_
    rcases Nat.le_total m 128 with single | more
    · rw [Nat.min_eq_left single,Nat.sub_eq_zero_of_le single]
      exact (List.append_nil _).symm
    · obtain ⟨k,rfl⟩ := Nat.exists_eq_add_of_le more
      rw [Nat.min_eq_right more,Nat.add_sub_cancel_left,List.range_add,List.map_append,List.map_map,
        Nat.min_eq_left (by omega)]
      refine congrArg _ (List.map_congr_left fun j _ => ?_)
      rw [Function.comp_apply,Function.comp_apply,← Nat.add_assoc]

theorem copyBlocks_direct (d : Sector) (mem : Nat → Sector) (m : Nat) (small : m ≤ 123) :
    copyBlocks d m 0 [] = (List.range m).map (sectorAt d mem) := by
  rw [copyBlocks_eq,List.nil_append]
  refine List.map_congr_left fun j member => ?_
  have inside := List.mem_range.mp member
  rw [sectorAt,if_pos (by omega),Nat.zero_add]
  rfl

theorem exec_indirectSectors (d : Sector) (l : Nat) (small : l ≤ 128) (sectors : List Nat) :
    (indirectSectors d l sectors).exec s = (sectors ++ (List.range l).map fun j => sectorAt d s.device (123 + j),s) := by
  rcases Nat.eq_zero_or_pos l with rfl | some
  · rw [List.range_zero,List.map_nil,List.append_nil]
    rfl
  · simp only [indirectSectors,if_pos some,Task.exec_bind,exec_bufferRead,Task.exec_pure,copyBlocks_eq]
    refine congrArg (fun rest => (sectors ++ rest,s)) (List.map_congr_left fun j member => ?_)
    have inside := List.mem_range.mp member
    rw [sectorAt,if_neg (by omega),if_pos (by omega),Nat.zero_add,Nat.add_sub_cancel_left]

theorem exec_doublyIndirectSectors (d : Sector) (l : Nat) (small : l ≤ 16384) (sectors : List Nat) :
    (doublyIndirectSectors d l sectors).exec s =
      (sectors ++ (List.range l).map fun j => sectorAt d s.device (251 + j),s) := by
  rcases Nat.eq_zero_or_pos l with rfl | some
  · rw [List.range_zero,List.map_nil,List.append_nil]
    rfl
  · simp only [doublyIndirectSectors,if_pos some,Task.exec_bind,exec_bufferRead]
    rw [exec_copySecondLevel _ _ _ _ _ rfl]
    refine congrArg (fun rest => (sectors ++ rest,s)) (List.map_congr_left fun j member => ?_)
    have inside := List.mem_range.mp member
    rw [sectorAt,if_neg (by omega),if_neg (by omega),if_pos (by omega),Nat.zero_add,Nat.add_sub_cancel_left]

theorem exec_getInodeDataSectors (inode : Nat) (s : Volume) {d : Sector} (data : (s.vars.handles.inode inode).data = d)
    (natural : 0 ≤ d.length) (limit : d.length ≤ 8517120) :
    (getInodeDataSectors inode).exec s =
      (some ((List.range (bytesToSectors d.length)).map (sectorAt d s.device)),s) := by
  have small := (bytesToSectors_le _ natural (by omega)).mpr limit
  simp only [getInodeDataSectors,Task.exec_bind,exec_getHandles,data,if_neg (Int.not_lt.mpr natural)]
  generalize bytesToSectors d.length = n at small
  have first : n - min n 123 = n - 123 := by omega
  have second : n - 123 - min (n - 123) 128 = n - 123 - 128 := by omega
  have whole : (n - 123 - 128 - min (n - 123 - 128) 16384 == 0) = true := by
    rw [beq_iff_eq]
    omega
  rw [range_regions _ n small,first,second,exec_indirectSectors d _ (Nat.min_le_right _ _),
    exec_doublyIndirectSectors d _ (Nat.min_le_right _ _),whole,copyBlocks_direct d s.device _ (Nat.min_le_right _ _),
    List.append_assoc]
  rfl

end

/-- The two readers of the block map agree, and the ASSERT at the end of the first holds. -/
theorem dataSectors_agree (s : FileSys) (inode : Nat) (natural : 0 ≤ (s.vars.handles.inode inode).data.length)
    (limit : (s.vars.handles.inode inode).data.length ≤ 8517120) :
    ∃ sectors, ((getInodeDataSectors inode).exec s).1 = some sectors ∧
      volume ((getInodeDataSectors inode).exec s).2 = volume s ∧
      sectors.length = bytesToSectors (s.vars.handles.inode inode).data.length ∧
      ∀ i (inside : i < sectors.length), sectors[i] = ((indexToSector (s.vars.handles.inode inode).data i).exec s).1 ∧
        ∀ pos, pos < (s.vars.handles.inode inode).data.length → pos / 512 = i →
          sectors[i] = ((byteToSector (s.vars.handles.inode inode).data pos).exec s).1 := by
  have walk := exec_getInodeDataSectors inode (volume s) rfl natural limit
  rw [exec_volume] at walk
  obtain ⟨found,same⟩ := Prod.mk.inj walk
  change ((getInodeDataSectors inode).exec s).1 = some ((List.range (bytesToSectors
    (s.vars.handles.inode inode).data.length)).map (sectorAt (s.vars.handles.inode inode).data (volume s).device)) at found
  generalize (s.vars.handles.inode inode).data = d at found natural limit
  have lookup (i : Nat) : ((indexToSector d i).exec s).1 = sectorAt d (volume s).device i := by
    have run := exec_indexToSector_sectorAt d i (volume s)
    rw [exec_volume] at run
    exact (Prod.mk.inj run).1
  refine ⟨_,found,same,?_,fun i inside => ⟨?_,fun pos below index => ?_⟩⟩
  · rw [List.length_map,List.length_range]
  · rw [List.getElem_map,List.getElem_range,lookup]
  · unfold byteToSector
    rw [List.getElem_map,List.getElem_range,if_pos ⟨by omega,below⟩,index,Int.toNat_natCast,lookup]

/-- An inode of 200000 bytes, none of its blocks there yet, open on the blank device. -/
theorem blankStore_dataSectors : ∃ (s : FileSys) (inode : Nat) (sectors : List Nat),
    (s.vars.handles.inode inode).data = newInodeDisk 200000 false ∧
      ((getInodeDataSectors inode).exec s).1 = some sectors ∧ sectors.length = bytesToSectors 200000 := by
  have length := length_newInodeDisk 200000 false (by decide) (by decide)
  have agree (s : FileSys) (p : Nat) (same : (s.vars.handles.inode p).data = newInodeDisk 200000 false) :
      ∃ sectors, ((getInodeDataSectors p).exec s).1 = some sectors ∧ sectors.length = bytesToSectors 200000 := by
    obtain ⟨sectors,found,-,size,-⟩ := dataSectors_agree s p (by rw [same,length]; decide) (by rw [same,length]; decide)
    rw [same,length] at size
    exact ⟨sectors,found,size⟩
  have opened (h : Handles) : (h.openInode 7 (newInodeDisk 200000 false)).inode h.inodes.next =
      readInode 7 (newInodeDisk 200000 false) := ObjectHeap.deref_of_cell _ _ _ (ObjectHeap.alloc_cell_next _ _)
  obtain ⟨sectors,found,size⟩ := agree ⟨{bootVars with handles := bootVars.handles.openInode 7 (newInodeDisk 200000 false)},
    blankStore⟩ bootVars.handles.inodes.next (congrArg Inode.data (opened bootVars.handles))
  exact ⟨_,_,sectors,congrArg Inode.data (opened bootVars.handles),found,size⟩

end MyShell.FS
