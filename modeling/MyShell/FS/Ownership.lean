import MyShell.FS.Session

/-! Who owns which sector: the free map file, the root directory and the listed files
have no sector in common, and no sector of theirs is ever handed out. -/
namespace MyShell.FS
open BlockProgram PointerForest Bitmap

section
variable {reserved dirty owner : Nat → Prop} {s t : Volume} {x z : Nat} {d : Sector} {a : List Byte}

/-- The sectors that an inode with a sound map owns are different ones. -/
theorem SoundMap.ownedSectors_nodup {reserved : Nat → Prop} (sound : SoundMap reserved (arena s) d)
    (complete : ∀ k ∈ inodeReach (bytesToSectors d.length), node blocks s.device (d.word k.1) k.2 ≠ 0)
    (outside : ∀ pointer path, Key blocks height isPointer pointer path →
      node blocks s.device (d.word pointer) path ≠ 0 → node blocks s.device (d.word pointer) path ≠ x) :
    (ownedSectors d s.device x).Nodup := by
  refine List.nodup_cons.mpr ⟨fun member => ?_,List.Nodup.map_on (fun j first k second same => ?_) (inodeReach_nodup _)⟩
  · obtain ⟨k,reached,same⟩ := List.mem_map.mp member
    exact outside k.1 k.2 (inodeReach_key _ k reached) (complete k reached) same
  · obtain ⟨pointer,path⟩ := sound.single j.1 j.2 k.1 k.2 (inodeReach_key _ j first) (inodeReach_key _ k second)
      (complete j first) same
    exact Prod.ext pointer path

theorem Layout.ownedSectors_nodup (layout : Layout reserved owner s.device s) (owns : owner x) :
    (ownedSectors (s.device x) s.device x).Nodup :=
  (layout.map owns).ownedSectors_nodup (layout.complete x owns) fun _ path key present same =>
    (layout.map owns).apart _ path key present (Or.inr ((congrArg owner same).mpr owns))

/-- Two inodes have no sector in common. -/
theorem Layout.ownedSectors_disjoint (layout : Layout reserved owner s.device s) (owns : owner x) (other : owner z)
    (apart : x ≠ z) : (ownedSectors (s.device x) s.device x).Disjoint (ownedSectors (s.device z) s.device z) := by
  intro y left right
  rcases List.mem_cons.mp left with rfl | left
  · rcases List.mem_cons.mp right with same | right
    · exact apart same
    · obtain ⟨k,reached,same⟩ := List.mem_map.mp right
      exact (layout.map other).apart k.1 k.2 (inodeReach_key _ k reached) (layout.complete z other k reached)
        (Or.inr (same ▸ owns))
  · obtain ⟨j,first,rfl⟩ := List.mem_map.mp left
    have taken := layout.complete x owns j first
    have key := inodeReach_key _ j first
    rcases List.mem_cons.mp right with same | right
    · exact (layout.map owns).apart j.1 j.2 key taken (Or.inr (same ▸ other))
    · obtain ⟨k,second,same⟩ := List.mem_map.mp right
      have both := layout.forest.single (x,j.1) j.2 (z,k.1) k.2 ((inodePart owns).key _ _ key)
        ((inodePart other).key _ _ (inodeReach_key _ k second)) taken same.symm
      exact apart (Prod.mk.inj both.1).1

/-- No sector of an inode is the free map file's. -/
theorem Layout.ownedSectors_free (layout : Layout reserved owner s.device s) (owns : owner x) (y : Nat)
    (member : y ∈ ownedSectors (s.device x) s.device x) : ¬reserved y := by
  rcases List.mem_cons.mp member with rfl | member
  · exact layout.free y owns
  · obtain ⟨k,reached,rfl⟩ := List.mem_map.mp member
    exact fun held => (layout.map owns).apart k.1 k.2 (inodeReach_key _ k reached) (layout.complete x owns k reached)
      (Or.inl held)

theorem Layout.ownedSectors_marked (layout : Layout reserved owner s.device s) (owns : owner x) (y : Nat)
    (member : y ∈ ownedSectors (s.device x) s.device x) : bitmapTest s.vars.freeMap y = true := by
  rcases List.mem_cons.mp member with rfl | member
  · exact layout.marked y owns
  · obtain ⟨k,reached,rfl⟩ := List.mem_map.mp member
    exact (layout.map owns).marked k.1 k.2 (inodeReach_key _ k reached) (layout.complete x owns k reached)

/-- What `free_map_allocate` hands out was free. -/
theorem allocate_clear (write : Writer) (cnt : Nat) (s : Volume) (first : Nat)
    (found : ((freeMapAllocate write cnt).exec s).1 = some first) (j : Nat) (inside : j < cnt) :
    bitmapTest s.vars.freeMap (first + j) = false := by
  unfold freeMapAllocate at found
  simp only [Task.exec_bind,Task.exec_get,Task.exec_set,bitmapScanAndFlip] at found
  cases scan : bitmapScan s.vars.freeMap 0 cnt false with
  | none =>
    rw [scan] at found
    simp only [Task.exec_bind,Task.exec_pure] at found
    exact absurd found.symm (Option.some_ne_none _)
  | some sector =>
    rw [scan] at found
    simp only [Task.exec_bind,Task.exec_ite,Task.exec_pure] at found
    split at found
    · obtain rfl := Option.some.inj found
      exact scan_clear _ _ _ _ scan j inside
    · exact absurd found.symm (Option.some_ne_none _)

/-- The sectors of the free map file, by its inode in memory. -/
def mapSectors (s : Volume) : List Nat :=
  match s.vars.handles.freeMapFile with
  | none => [freeMapSector]
  | some file => ownedSectors (s.vars.handles.inode (s.vars.handles.file file).inode).data s.device freeMapSector

/-- The inode sectors of the root directory and of the files its entries in use name. -/
def namedSectors (s : Volume) : List Nat :=
  rootDirSector :: (listedEntries (rootArray s)).map DirEntry.inodeSector

/-- All sectors owned by the free map file, the root directory and the listed files. -/
def systemSectors (s : Volume) : List Nat :=
  mapSectors s ++ (namedSectors s).flatMap fun x => ownedSectors (s.device x) s.device x

theorem mem_namedSectors (member : x ∈ namedSectors s) : Owns (rootArray s) x := by
  rcases List.mem_cons.mp member with rfl | member
  · exact owns_root
  · obtain ⟨e,listed,rfl⟩ := List.mem_map.mp member
    obtain ⟨i,there,rfl⟩ := (mem_listedEntries _ _).mp listed
    exact owns_listed there

theorem namedSectors_nodup (mounted : Mounted reserved dirty s) : (namedSectors s).Nodup := by
  refine List.nodup_cons.mpr ⟨fun member => ?_,?_⟩
  · obtain ⟨e,listed,same⟩ := List.mem_map.mp member
    obtain ⟨i,there,rfl⟩ := (mem_listedEntries _ _).mp listed
    exact mounted.apart i there same
  · unfold listedEntries
    rw [List.filter_map,List.map_map]
    refine List.Nodup.map_on (fun i first j second same => ?_) (List.Nodup.filter _ List.nodup_range')
    have listed (k : Nat) (member : k ∈ (List.range' 1 (entryCount (rootArray s) - 1)).filter
        (DirEntry.inUse ∘ entryAt (rootArray s))) : ListedAt (rootArray s) k := by
      obtain ⟨range,used⟩ := List.mem_filter.mp member
      rw [List.mem_range'_1] at range
      exact ⟨range.1,by omega,used⟩
    exact mounted.root.distinct i j (listed i first) (listed j second) same

/-- The sectors of the free map file are different ones, marked, and set apart. -/
theorem mapSectors_spec (mounted : Mounted reserved dirty s) :
    (mapSectors s).Nodup ∧ ∀ y ∈ mapSectors s, reserved y := by
  obtain ⟨f,p,i,mapped⟩ := mounted.idle.mapped
  obtain ⟨d,opened⟩ := mounted.ready.opened f mapped.pointer
  have complete : ∀ k ∈ inodeReach (bytesToSectors d.length), node blocks s.device (d.word k.1) k.2 ≠ 0 := by
    rw [opened.total]
    exact opened.present.complete opened.limit
  have sectors : mapSectors s = ownedSectors d s.device freeMapSector := by
    unfold mapSectors
    rw [mapped.pointer]
    dsimp only
    rw [opened.data]
  rw [sectors]
  refine ⟨opened.sound.ownedSectors_nodup complete fun _ _ _ present => present,fun y member => ?_⟩
  rcases List.mem_cons.mp member with rfl | member
  · exact mounted.origin
  · obtain ⟨k,reached,rfl⟩ := List.mem_map.mp member
    exact opened.nodes k.1 k.2 (inodeReach_key _ k reached) (complete k reached)

theorem systemSectors_nodup (mounted : Mounted reserved dirty s) : (systemSectors s).Nodup := by
  refine List.nodup_append'.mpr ⟨(mapSectors_spec mounted).1,List.nodup_flatMap.mpr ⟨fun x member => ?_,?_⟩,?_⟩
  · exact mounted.layout.ownedSectors_nodup (mem_namedSectors member)
  · exact (namedSectors_nodup mounted).pairwise_of_forall_ne fun x first z second apart =>
      mounted.layout.ownedSectors_disjoint (mem_namedSectors first) (mem_namedSectors second) apart
  · intro y left right
    obtain ⟨x,named,member⟩ := List.mem_flatMap.mp right
    exact mounted.layout.ownedSectors_free (mem_namedSectors named) y member ((mapSectors_spec mounted).2 y left)

theorem systemSectors_marked (mounted : Mounted reserved dirty s) (y : Nat) (member : y ∈ systemSectors s) :
    bitmapTest s.vars.freeMap y = true := by
  rcases List.mem_append.mp member with system | file
  · exact mounted.ready.held y ((mapSectors_spec mounted).2 y system)
  · obtain ⟨x,named,inside⟩ := List.mem_flatMap.mp file
    exact mounted.layout.ownedSectors_marked (mem_namedSectors named) y inside

theorem freeMapSector_mem (s : Volume) : freeMapSector ∈ systemSectors s := by
  refine List.mem_append_left _ ?_
  unfold mapSectors
  split
  · exact List.mem_singleton_self _
  · exact List.mem_cons_self

theorem rootDirSector_mem (s : Volume) : rootDirSector ∈ systemSectors s :=
  List.mem_append_right _ (List.mem_flatMap.mpr ⟨_,List.mem_cons_self,List.mem_cons_self⟩)

end

/-- In every run from `do_format` no sector has two owners, every owned sector is marked,
and neither `free_map_allocate` nor an operation is given one. -/
theorem sectors_owned_once (c : CacheStore) (fits : Formattable c.cache.fsDevice.size) (s : FileSys)
    (run : Reached (formatted c) s) :
    (systemSectors (volume s)).Nodup ∧
      (∀ y ∈ systemSectors (volume s), bitmapTest s.vars.freeMap y = true) ∧
      freeMapSector ∈ systemSectors (volume s) ∧ rootDirSector ∈ systemSectors (volume s) ∧
      (∀ cnt first, ((freeMapAllocate inodeWriteAt cnt).exec s).1 = some first →
        ∀ j < cnt, first + j ∉ systemSectors (volume s)) ∧
      ∀ op : FileOp, op.Allowed (volume s) → ∃ new, (op.task.exec s).2.vars.allocations = s.vars.allocations ++ new ∧
        ∀ x, some x ∈ new → x ∉ systemSectors (volume s) := by
  obtain ⟨reserved,dirty,start⟩ := formatted_sane c fits
  have sane := start.reached run
  have marked := systemSectors_marked sane.mounted
  refine ⟨systemSectors_nodup sane.mounted,marked,freeMapSector_mem _,rootDirSector_mem _,
    fun cnt first found j inside member => ?_,fun op allowed => ?_⟩
  · have clear := allocate_clear inodeWriteAt cnt (volume s) first (by rw [exec_volume]; exact found) j inside
    rw [marked _ member] at clear
    exact Bool.false_ne_true clear.symm
  · obtain ⟨new,log,clear,-⟩ := (sane.step op allowed).2.log
    refine ⟨new,log,fun x member owned => ?_⟩
    have free := clear x member
    rw [marked x owned] at free
    exact Bool.false_ne_true free.symm

theorem blankStore_owned_once : (systemSectors (volume ((FileOp.create [] nameA 5000).task.exec (formatted blankStore)).2)).Nodup :=
  (sectors_owned_once blankStore blankStore_formattable _ (.step (.create [] nameA 5000) .start ⟨by decide,by decide⟩)).1

end MyShell.FS
