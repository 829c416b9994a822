import MyShell.FS.Cache

/-! `partition_scan` of partition.c. Every table is read from sector 0, whatever sector the
recursion has come to, so that one extended partition can keep the scan going for ever. -/
namespace MyShell.FS

/-- The fields of `struct partition_table_entry` that are looked at. -/
structure PartitionTableEntry where
  type : Nat
  offset : Nat
  size : Nat

/-- `pt->partitions[i]`, behind the 446 bytes of the loader. -/
def partitionEntry (pt : Sector) (i : Nat) : PartitionTableEntry where
  type := (pt.byte (446 + 16*i + 4)).toNat
  offset := littleEndian (pt.byte (446 + 16*i + 8)) (pt.byte (446 + 16*i + 9)) (pt.byte (446 + 16*i + 10))
    (pt.byte (446 + 16*i + 11))
  size := littleEndian (pt.byte (446 + 16*i + 12)) (pt.byte (446 + 16*i + 13)) (pt.byte (446 + 16*i + 14))
    (pt.byte (446 + 16*i + 15))

def partitionSignature (pt : Sector) : Nat := (pt.byte 510).toNat + 256 * (pt.byte 511).toNat

namespace PartitionTableEntry

def isEmpty (e : PartitionTableEntry) : Bool := e.size == 0 || e.type == 0

def isExtended (e : PartitionTableEntry) : Bool := e.type == 0x05 || e.type == 0x0f || e.type == 0x85 || e.type == 0xc5

end PartitionTableEntry

/-- A partition that `block_register` was called for. -/
structure Partition where
  start : Nat
  size : Nat
  partNr : Nat

/-- The partitions found so far, and the tables parsed, each for the sector it should be from. -/
structure PartitionScan where
  partNr : Nat
  partitions : List Partition
  parsed : List (Nat × Sector)

/-- The end of a partition is a `block_sector_t` and may wrap around. -/
def foundPartition (block : Block) (start size partNr : Nat) : List Partition :=
  if block.size ≤ start then []
  else if (start + size) % 4294967296 < start ∨ block.size < (start + size) % 4294967296 then []
  else [⟨start,size,partNr⟩]

/-- One pass of the loop over the table, with the recursive call as a parameter. -/
def parseEntry (block : Block) (recurse : Nat → Nat → PartitionScan → Option PartitionScan) (pt : Sector)
    (sector primaryExtendedSector : Nat) (found : PartitionScan) (i : Nat) : Option PartitionScan :=
  let e := partitionEntry pt i
  if e.isEmpty then some found
  else if e.isExtended then
    if sector = 0 then recurse e.offset e.offset found
    else recurse ((e.offset + primaryExtendedSector) % 4294967296) primaryExtendedSector found
  else some {found with
    partNr := found.partNr + 1
    partitions := found.partitions ++
      foundPartition block ((e.offset + sector) % 4294967296) e.size (found.partNr + 1)}

/-- Without a result when the calls nest deeper than the fuel. -/
def readPartitionTable (block : Block) : Nat → Nat → Nat → PartitionScan → Option PartitionScan
  | 0, _, _, _ => none
  | fuel+1, sector, primaryExtendedSector, found =>
    if block.size ≤ sector then some found
    else
      let pt := blockRead block 0
      if partitionSignature pt ≠ 0xaa55 then some found
      else (List.range 4).foldlM
        (parseEntry block (readPartitionTable block fuel) pt sector primaryExtendedSector)
        {found with parsed := found.parsed ++ [(sector,pt)]}

def partitionScan (block : Block) (fuel : Nat) : Option PartitionScan := readPartitionTable block fuel 0 0 ⟨0,[],[]⟩

/-- Every table parsed is the one stored in its sector. -/
def PartitionScan.Right (block : Block) (found : PartitionScan) : Prop :=
  ∀ table ∈ found.parsed, table.2 = block.sectors table.1

/-- The scan comes to an end, and parses for each sector the table that is stored in it. -/
def ScanCorrect (block : Block) : Prop :=
  ∃ fuel found, partitionScan block fuel = some found ∧ found.Right block

/-- The offsets of the extended partitions in the table of sector 0. -/
def IsExtendedOffset (block : Block) (offset : Nat) : Prop :=
  ∃ i < 4, (partitionEntry (block.sectors 0) i).isEmpty = false ∧ (partitionEntry (block.sectors 0) i).isExtended = true ∧
    (partitionEntry (block.sectors 0) i).offset = offset

/-- The extended partitions the scan goes into have the table of sector 0, and lead nowhere else. -/
def LeadsOut (block : Block) (offset : Nat) : Prop :=
  block.size ≤ offset ∨ offset ≠ 0 ∧ block.sectors offset = block.sectors 0 ∧
    ∀ other, IsExtendedOffset block other → block.size ≤ (other + offset) % 4294967296

section
variable {block : Block} {recurse : Nat → Nat → PartitionScan → Option PartitionScan} {found : PartitionScan}
  {fuel sector primary offset : Nat}

/-- The call that an extended partition makes. -/
def nextTable (sector primary offset : Nat) : Nat × Nat :=
  if sector = 0 then (offset,offset) else ((offset + primary) % 4294967296,primary)

theorem parseEntry_extended {pt : Sector} {i : Nat} (used : (partitionEntry pt i).isEmpty = false)
    (extended : (partitionEntry pt i).isExtended = true) :
    parseEntry block recurse pt sector primary found i =
      recurse (nextTable sector primary (partitionEntry pt i).offset).1
        (nextTable sector primary (partitionEntry pt i).offset).2 found := by
  unfold parseEntry nextTable
  simp only [used,extended,Bool.false_eq_true,if_false,if_true]
  split <;> rfl

/-- What is not an extended partition is passed, and no table is parsed for it. -/
theorem parseEntry_other {pt : Sector} {i : Nat}
    (other : ¬((partitionEntry pt i).isEmpty = false ∧ (partitionEntry pt i).isExtended = true)) :
    ∃ next, parseEntry block recurse pt sector primary found i = some next ∧ next.parsed = found.parsed := by
  unfold parseEntry
  cases empty : (partitionEntry pt i).isEmpty with
  | true =>
    simp only [empty,if_true]
    exact ⟨_,rfl,rfl⟩
  | false =>
    have plain : (partitionEntry pt i).isExtended = false := Bool.eq_false_iff.mpr fun extended => other ⟨empty,extended⟩
    simp only [empty,plain,Bool.false_eq_true,if_false]
    exact ⟨_,rfl,rfl⟩

theorem foldlM_none {α β : Type} (step : β → α → Option β) (l : List α) (x : α) (member : x ∈ l)
    (stuck : ∀ b, step b x = none) (b : β) : l.foldlM step b = none := by
  induction l generalizing b with
  | nil => exact absurd member List.not_mem_nil
  | cons y l ih =>
    rw [List.foldlM_cons]
    cases first : step b y with
    | none => rfl
    | some c =>
      rcases List.mem_cons.mp member with rfl | later
      · rw [stuck b] at first
        exact absurd first.symm (Option.some_ne_none _)
      · exact ih later c

theorem foldlM_some {α β : Type} (step : β → α → Option β) (holds : β → Prop) (l : List α)
    (goes : ∀ b, holds b → ∀ x ∈ l, ∃ c, step b x = some c ∧ holds c) (b : β) (start : holds b) :
    ∃ c, l.foldlM step b = some c ∧ holds c := by
  induction l generalizing b with
  | nil => exact ⟨b,rfl,start⟩
  | cons y l ih =>
    obtain ⟨c,first,next⟩ := goes b start y List.mem_cons_self
    rw [List.foldlM_cons,first]
    exact ih (fun b held x member => goes b held x (List.mem_cons_of_mem _ member)) c next

theorem foldlM_kept {α β : Type} (step : β → α → Option β) (holds : β → Prop) (l : List α)
    (keeps : ∀ b c, holds b → ∀ x ∈ l, step b x = some c → holds c) (b c : β) (start : holds b)
    (done : l.foldlM step b = some c) : holds c := by
  induction l generalizing b with
  | nil => exact Option.some.inj done ▸ start
  | cons y l ih =>
    rw [List.foldlM_cons] at done
    obtain ⟨next,first,rest⟩ := Option.bind_eq_some_iff.mp done
    exact ih (fun b c held x member => keeps b c held x (List.mem_cons_of_mem _ member)) next
      (keeps b next start y List.mem_cons_self first) rest

/-- Calls each of which makes another of them never return. -/
theorem readPartitionTable_none (signed : partitionSignature (block.sectors 0) = 0xaa55) (calls : Nat → Nat → Prop)
    (again : ∀ sector primary, calls sector primary → sector < block.size ∧ ∃ offset, IsExtendedOffset block offset ∧
      calls (nextTable sector primary offset).1 (nextTable sector primary offset).2)
    (fuel sector primary : Nat) (found : PartitionScan) (call : calls sector primary) :
    readPartitionTable block fuel sector primary found = none := by
  induction fuel generalizing sector primary found with
  | zero => rfl
  | succ fuel ih =>
    obtain ⟨inside,offset,⟨i,low,used,extended,rfl⟩,next⟩ := again sector primary call
    unfold readPartitionTable
    simp only [if_neg (Nat.not_le.mpr inside),blockRead,signed,ne_eq,not_true,if_false]
    refine foldlM_none _ _ i (List.mem_range.mpr low) (fun found => ?_) _
    rw [parseEntry_extended used extended]
    exact ih _ _ found next

theorem foldlM_reached {α β : Type} (step : β → α → Option β) (holds : β → Prop) (l : List α) (x : α) (member : x ∈ l)
    (makes : ∀ b c, step b x = some c → holds c) (keeps : ∀ b c, holds b → ∀ y ∈ l, step b y = some c → holds c)
    (b c : β) (done : l.foldlM step b = some c) : holds c := by
  induction l generalizing b with
  | nil => exact absurd member List.not_mem_nil
  | cons y l ih =>
    rw [List.foldlM_cons] at done
    obtain ⟨next,first,rest⟩ := Option.bind_eq_some_iff.mp done
    have later (b c : β) (held : holds b) (z : α) (inside : z ∈ l) := keeps b c held z (List.mem_cons_of_mem _ inside)
    rcases List.mem_cons.mp member with rfl | inside
    · exact foldlM_kept step holds l later next c (makes b next first) rest
    · exact ih inside later next rest

/-- A table parsed before a pass of the loop is still on the list after it, if the recursive
calls keep it there. -/
theorem parseEntry_parsed {after : PartitionScan} {pt : Sector} {i : Nat} (table : Nat × Sector)
    (calls : ∀ sector primary b c, table ∈ b.parsed → recurse sector primary b = some c → table ∈ c.parsed)
    (member : table ∈ found.parsed) (done : parseEntry block recurse pt sector primary found i = some after) :
    table ∈ after.parsed := by
  by_cases extended : (partitionEntry pt i).isEmpty = false ∧ (partitionEntry pt i).isExtended = true
  · rw [parseEntry_extended extended.1 extended.2] at done
    exact calls _ _ found after member done
  · obtain ⟨next,passed,same⟩ : ∃ next, parseEntry block recurse pt sector primary found i = some next ∧
      next.parsed = found.parsed := parseEntry_other extended
    rw [passed] at done
    rw [← Option.some.inj done,same]
    exact member

/-- A call returns with the tables parsed before it on the list, and its own. -/
theorem readPartitionTable_parsed {after : PartitionScan} (table : Nat × Sector)
    (member : table ∈ found.parsed ∨ partitionSignature (block.sectors 0) = 0xaa55 ∧ sector < block.size ∧
      table = (sector,block.sectors 0))
    (done : readPartitionTable block fuel sector primary found = some after) : table ∈ after.parsed := by
  induction fuel generalizing sector primary found after with
  | zero => exact absurd done.symm (Option.some_ne_none _)
  | succ fuel ih =>
    unfold readPartitionTable at done
    by_cases outside : block.size ≤ sector
    · rw [if_pos outside] at done
      rw [← Option.some.inj done]
      exact member.resolve_right fun own => absurd outside (Nat.not_le.mpr own.2.1)
    · rw [if_neg outside] at done
      by_cases signed : partitionSignature (block.sectors 0) = 0xaa55
      · simp only [blockRead,signed,ne_eq,not_true,if_false] at done
        refine foldlM_kept _ (fun found => table ∈ found.parsed) _ (fun b c held i low step => ?_) _ _ ?_ done
        · exact parseEntry_parsed table (fun sector primary b c held call => ih (Or.inl held) call) held step
        · rcases member with before | own
          · exact List.mem_append_left _ before
          · exact List.mem_append_right _ (List.mem_singleton.mpr own.2.2)
      · simp only [blockRead,ne_eq,signed,not_false_eq_true,if_true] at done
        rw [← Option.some.inj done]
        exact member.resolve_right fun own => absurd own.1 signed

/-- An extended partition inside the device that starts at sector 0, or from which the table
of sector 0 leads to a sector of the device. -/
theorem partitionScan_none (signed : partitionSignature (block.sectors 0) = 0xaa55) (extended : IsExtendedOffset block offset)
    (inside : offset < block.size)
    (leads : offset = 0 ∨ ∃ other, IsExtendedOffset block other ∧ (other + offset) % 4294967296 < block.size) (fuel : Nat) :
    partitionScan block fuel = none := by
  rcases leads with rfl | ⟨other,extended',inside'⟩
  · refine readPartitionTable_none signed (fun sector _ => sector = 0) ?_ _ _ _ _ rfl
    rintro _ primary rfl
    exact ⟨inside,0,extended,rfl⟩
  · refine readPartitionTable_none signed (fun sector primary => sector = 0 ∨
      primary = offset ∧ (sector = offset ∨ sector = (other + offset) % 4294967296)) ?_ _ _ _ _ (Or.inl rfl)
    intro sector primary call
    by_cases start : sector = 0
    · refine ⟨by omega,offset,extended,?_⟩
      unfold nextTable
      rw [if_pos start]
      exact Or.inr ⟨rfl,Or.inl rfl⟩
    · obtain ⟨rfl,place⟩ := call.resolve_left start
      refine ⟨?_,other,extended',?_⟩
      · rcases place with rfl | rfl
        · exact inside
        · exact inside'
      · unfold nextTable
        rw [if_neg start]
        exact Or.inr ⟨rfl,Or.inr rfl⟩

/-- A pass of the loop parses no wrong table if the call it makes parses none. -/
theorem parseEntry_right {pt : Sector} {i : Nat} (low : i < 4) (table : pt = block.sectors 0) (right : found.Right block)
    (calls : ∀ offset, IsExtendedOffset block offset → ∃ after,
      recurse (nextTable sector primary offset).1 (nextTable sector primary offset).2 found = some after ∧ after.Right block) :
    ∃ after, parseEntry block recurse pt sector primary found i = some after ∧ after.Right block := by
  by_cases extended : (partitionEntry pt i).isEmpty = false ∧ (partitionEntry pt i).isExtended = true
  · rw [parseEntry_extended extended.1 extended.2]
    exact calls _ ⟨i,low,table ▸ extended.1,table ▸ extended.2,by rw [table]⟩
  · obtain ⟨next,passed,kept⟩ : ∃ next, parseEntry block recurse pt sector primary found i = some next ∧
      next.parsed = found.parsed := parseEntry_other extended
    refine ⟨next,passed,fun table member => right table ?_⟩
    rw [← kept]
    exact member

/-- A call on a sector that has the table of sector 0, if the calls it makes go well. -/
theorem readPartitionTable_right (signed : partitionSignature (block.sectors 0) = 0xaa55)
    (same : sector < block.size → block.sectors sector = block.sectors 0) (right : found.Right block)
    (calls : sector < block.size → ∀ offset, IsExtendedOffset block offset → ∀ found : PartitionScan, found.Right block →
      ∃ after, readPartitionTable block fuel (nextTable sector primary offset).1 (nextTable sector primary offset).2 found =
        some after ∧ after.Right block) :
    ∃ after, readPartitionTable block (fuel+1) sector primary found = some after ∧ after.Right block := by
  unfold readPartitionTable
  by_cases outside : block.size ≤ sector
  · exact ⟨found,if_pos outside,right⟩
  · have inside := Nat.lt_of_not_le outside
    simp only [if_neg outside,blockRead,signed,ne_eq,not_true,if_false]
    refine foldlM_some _ (PartitionScan.Right block) _ (fun found held i low => ?_) _ fun table member => ?_
    · exact parseEntry_right (List.mem_range.mp low) rfl held fun offset extended => calls inside offset extended found held
    · rcases List.mem_append.mp member with before | own
      · exact right table before
      · rw [List.mem_singleton.mp own]
        exact (same inside).symm

/-- The recursion of `read_partition_table` ends, with the right tables, exactly when each
extended partition of sector 0 lies outside the device or leads out of it with that same table. -/
theorem partitionScan_correct (block : Block) :
    ScanCorrect block ↔ (partitionSignature (block.sectors 0) = 0xaa55 →
      ∀ offset, IsExtendedOffset block offset → LeadsOut block offset) := by
  constructor
  · rintro ⟨fuel,found,done,right⟩ signed offset extended
    refine or_iff_not_imp_left.mpr fun outside => ?_
    have inside := Nat.lt_of_not_le outside
    have ends (leads : offset = 0 ∨ ∃ other, IsExtendedOffset block other ∧ (other + offset) % 4294967296 < block.size) :
        False := by
      rw [partitionScan_none signed extended inside leads fuel] at done
      exact Option.some_ne_none _ done.symm
    refine ⟨fun zero => ends (Or.inl zero),?_,fun other extended' => Nat.le_of_not_lt fun inside' =>
      ends (Or.inr ⟨other,extended',inside'⟩)⟩
    refine (right (offset,block.sectors 0) ?_).symm
    obtain ⟨i,low,used,partition,rfl⟩ := extended
    unfold partitionScan at done
    cases fuel with
    | zero => exact absurd done.symm (Option.some_ne_none _)
    | succ fuel =>
      have device : ¬block.size ≤ 0 := by omega
      unfold readPartitionTable at done
      simp only [if_neg device,blockRead,signed,ne_eq,not_true,if_false] at done
      refine foldlM_reached _ (fun found => (_,block.sectors 0) ∈ found.parsed) _ i (List.mem_range.mpr low)
        (fun b c step => ?_) (fun b c held j _ step => ?_) _ _ done
      · rw [parseEntry_extended used partition] at step
        exact readPartitionTable_parsed _ (Or.inr ⟨signed,inside,rfl⟩) step
      · exact parseEntry_parsed _ (fun sector primary b c held call => readPartitionTable_parsed _ (Or.inl held) call) held step
  · intro leads
    have empty : PartitionScan.Right block ⟨0,[],[]⟩ := fun table member => absurd member List.not_mem_nil
    by_cases signed : partitionSignature (block.sectors 0) = 0xaa55
    · -- the main table, the tables its partitions lead to, and the calls out of the device
      refine ⟨3,readPartitionTable_right signed (fun _ => rfl) empty fun _ offset extended found right => ?_⟩
      change ∃ after, readPartitionTable block 2 offset offset found = some after ∧ after.Right block
      have inner (inside : offset < block.size) := (leads signed offset extended).resolve_left (Nat.not_le.mpr inside)
      refine readPartitionTable_right signed (fun inside => (inner inside).2.1) right fun inside other extended' found right => ?_
      obtain ⟨nonzero,-,out⟩ := inner inside
      unfold nextTable readPartitionTable
      rw [if_neg nonzero]
      exact ⟨found,if_pos (out other extended'),right⟩
    · refine ⟨1,⟨0,[],[]⟩,?_,empty⟩
      unfold partitionScan readPartitionTable
      simp only [blockRead,ne_eq,signed,not_false_eq_true,if_true,ite_self]

end

/-- A disk of one sector whose first partition is an extended one at offset 0. -/
def selfExtended : Block where
  size := 1
  sectors := fun _ => Sector.ofBytes fun i =>
    if i = 450 then 0x05 else if i = 458 then 1 else if i = 510 then 0x55 else if i = 511 then 0xaa else 0

theorem selfExtended_scan : ¬ScanCorrect selfExtended := by
  rintro ⟨fuel,found,done,-⟩
  rw [partitionScan_none (by decide) ⟨0,by decide,by decide,by decide,rfl⟩ (by decide) (Or.inl (by decide)) fuel] at done
  exact Option.some_ne_none _ done.symm

/-- A disk without a partition table is left alone. -/
example : ScanCorrect ⟨2,fun _ => .zeros⟩ := ⟨1,_,rfl,fun _ member => absurd member List.not_mem_nil⟩

end MyShell.FS
