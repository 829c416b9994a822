import MyShell.FS.Growth

/-! `inode_deallocate`: exactly the blocks that the length of the inode reaches are
given back to the free map. -/
namespace MyShell.FS
open BlockProgram PointerForest Bitmap

/-- A run that releases the sectors `gone` and does nothing else. -/
structure Releases (reserved dirty : Nat → Prop) (gone : List Nat) (s t : Volume) : Prop where
  marks : ∀ y, bitmapTest t.vars.freeMap y = true ↔ bitmapTest s.vars.freeMap y = true ∧ y ∉ gone
  size : t.vars.freeMap.bitCnt = s.vars.freeMap.bitCnt
  handles : t.vars.handles = s.vars.handles
  panics : t.vars.panics = s.vars.panics
  log : t.vars.allocations = s.vars.allocations
  device : ∀ y, ¬dirty y → t.device y = s.device y
  ready : Ready reserved dirty t

section
variable {reserved dirty kept : Nat → Prop} {gone more : List Nat} {s t u : Volume} {write : Writer}

theorem Releases.refl (ready : Ready reserved dirty s) : Releases reserved dirty [] s s :=
  ⟨fun _ => by simp,rfl,rfl,rfl,rfl,fun _ _ => rfl,ready⟩

theorem Releases.trans (first : Releases reserved dirty gone s t) (second : Releases reserved dirty more t u) :
    Releases reserved dirty (gone ++ more) s u := by
  refine ⟨fun y => ?_,second.size.trans first.size,second.handles.trans first.handles,
    second.panics.trans first.panics,second.log.trans first.log,
    fun y clean => (second.device y clean).trans (first.device y clean),second.ready⟩
  rw [second.marks,first.marks,List.mem_append,not_or,and_assoc]

/-- The order of the releases does not matter. -/
theorem Releases.congr (run : Releases reserved dirty gone s t) (same : ∀ y, y ∈ more ↔ y ∈ gone) :
    Releases reserved dirty more s t :=
  ⟨fun y => by rw [run.marks,same],run.size,run.handles,run.panics,run.log,run.device,run.ready⟩

/-- A sector that `free_map_release` may be called for. -/
structure Releasable (reserved : Nat → Prop) (s : Volume) (x : Nat) : Prop where
  marked : bitmapTest s.vars.freeMap x = true
  positive : x ≠ 0
  free : ¬reserved x

theorem releases_one (ready : Ready reserved dirty s) (isWrite : IsWrite write) (x : Nat)
    (able : Releasable reserved s x) :
    ∃ t, (freeMapRelease write x 1).exec s = ((),t) ∧ Releases reserved dirty [x] s t := by
  obtain ⟨mem,run,clean,after⟩ := release_spec ready isWrite x able.marked able.positive able.free
  refine ⟨_,run,fun y => ?_,by simp,rfl,rfl,rfl,clean,after⟩
  rw [test_set _ ready.packed.length _ _ _ (ready.inside x able.marked),List.mem_singleton]
  split
  · rename_i same
    simp [same]
  · rename_i other
    simp [other]

/-- Blocks of a sound forest that can be released. `a` is the arena before anything was. -/
theorem Releasable.of {ι : Type} {level : ι → Nat} {dom : ι → Prop} {a : Arena Sector} {root : ι → Nat}
    (sound : Sound blocks level dom kept a root) (below : ∀ y, reserved y → kept y) (i : ι) (path : List Nat)
    (key : Key blocks level dom i path) (present : node blocks a.mem (root i) path ≠ 0)
    (marked : bitmapTest s.vars.freeMap (node blocks a.mem (root i) path) = true) :
    Releasable reserved s (node blocks a.mem (root i) path) :=
  ⟨marked,present,fun taken => sound.apart i path key present (below _ taken)⟩

/-- A block that was not among those released is still marked. -/
theorem Releases.marked {entries : Nat} {level : Nat → Nat} {a : Arena Sector} {block : Sector}
    {keys : List (Nat × List Nat)}
    (run : Releases reserved dirty (keys.map fun k => node blocks a.mem (block.word k.1) k.2) s t)
    (sound : Sound blocks level (· < entries) kept a block.word)
    (inside : ∀ k ∈ keys, Key blocks level (· < entries) k.1 k.2) (k : Nat × List Nat)
    (key : Key blocks level (· < entries) k.1 k.2) (present : node blocks a.mem (block.word k.1) k.2 ≠ 0) (other : k ∉ keys)
    (marked : bitmapTest s.vars.freeMap (node blocks a.mem (block.word k.1) k.2) = true) :
    bitmapTest t.vars.freeMap (node blocks a.mem (block.word k.1) k.2) = true := by
  refine (run.marks _).mpr ⟨marked,fun member => ?_⟩
  obtain ⟨j,listed,same⟩ := List.mem_map.mp member
  obtain ⟨pointer,path⟩ := sound.single k.1 k.2 j.1 j.2 key (inside j listed) present same.symm
  exact other (Prod.ext pointer path ▸ listed)

theorem deallocateEntries_spec {depth unit entries : Nat} {level : Nat → Nat} {a : Arena Sector} {block : Sector}
    (low : depth ≤ 2) (fits : unit ≤ 128 ^ depth) (deallocate : Nat → Nat → FsM Unit)
    (tree : ∀ (s : Volume) (entry n : Nat), Ready reserved dirty s →
      (∀ y, ¬dirty y → s.device y = a.mem y) → n ≤ unit →
      Sound blocks (fun _ : Unit => depth) (fun _ => True) kept a (fun _ => entry) →
      (∀ path ∈ reach depth n, node blocks a.mem entry path ≠ 0) →
      (∀ path ∈ reach depth n, bitmapTest s.vars.freeMap (node blocks a.mem entry path) = true) →
      ∃ t, (deallocate entry n).exec s = ((),t) ∧
        Releases reserved dirty ((reach depth n).map (node blocks a.mem entry)) s t)
    (sound : Sound blocks level (· < entries) kept a block.word) (count i n : Nat) (s : Volume)
    (ready : Ready reserved dirty s) (same : ∀ y, ¬dirty y → s.device y = a.mem y) (room : i + count ≤ entries)
    (even : ∀ j, i ≤ j → j < i + count → level j = depth)
    (complete : ∀ k ∈ reachEntries (reach depth) unit count i n, node blocks a.mem (block.word k.1) k.2 ≠ 0)
    (marked : ∀ k ∈ reachEntries (reach depth) unit count i n,
      bitmapTest s.vars.freeMap (node blocks a.mem (block.word k.1) k.2) = true) :
    ∃ t, (deallocateEntries deallocate unit count i n block).exec s = (n - count * unit,t) ∧
      Releases reserved dirty
        ((reachEntries (reach depth) unit count i n).map fun k => node blocks a.mem (block.word k.1) k.2) s t := by
  induction count generalizing i n s with
  | zero =>
    rw [Nat.zero_mul,Nat.sub_zero]
    exact ⟨s,rfl,Releases.refl ready⟩
  | succ count ih =>
    have here := even i (Nat.le_refl _) (by omega)
    have keys := reachEntries_key depth unit (count+1) i n entries level low fits room even
    obtain ⟨t,run,first⟩ := tree s (block.word i) (min n unit) ready same (Nat.min_le_right _ _)
      (here ▸ Sound.tree sound i (by omega))
      (fun path member => complete (i,path) (List.mem_append_left _ (List.mem_map_of_mem member)))
      (fun path member => marked (i,path) (List.mem_append_left _ (List.mem_map_of_mem member)))
    have entry : Releases reserved dirty (((reach depth (min n unit)).map fun path => (i,path)).map fun k =>
        node blocks a.mem (block.word k.1) k.2) s t := by
      rw [List.map_map]
      exact first
    obtain ⟨u,rest,second⟩ := ih (i+1) (n - min n unit) t first.ready
      (fun y clean => (first.device y clean).trans (same y clean)) (by omega)
      (fun j low high => even j (by omega) (by omega)) (fun k member => complete k (List.mem_append_right _ member))
      (fun k member => by
        have later : k ∈ reachEntries (reach depth) unit (count+1) i n := List.mem_append_right _ member
        refine entry.marked sound (fun j listed => keys j (List.mem_append_left _ listed)) k (keys k later)
          (complete k later) (fun listed => ?_) (marked k later)
        obtain ⟨path,-,rfl⟩ := List.mem_map.mp listed
        exact absurd (mem_reachEntries _ _ _ _ _ _ member).1 (Nat.not_succ_le_self i))
    refine ⟨u,?_,(entry.trans second).congr fun y => ?_⟩
    · simp only [deallocateEntries,Task.exec_bind,run,rest]
      congr 1
      rw [Nat.succ_mul]
      omega
    · rw [reachEntries,List.map_append]

theorem unit_covers (unit n : Nat) (positive : 0 < unit) : n ≤ (n + unit - 1) / unit * unit := by
  have split := Nat.div_add_mod (n + unit - 1) unit
  have small := Nat.mod_lt (n + unit - 1) positive
  rw [Nat.mul_comm] at split
  omega

/-- `inode_deallocate_indirect`. -/
theorem deallocateIndirect_spec (isWrite : IsWrite write) (within : ∀ y, dirty y → reserved y)
    {a : Arena Sector} (level : Nat) (low : level ≤ 2) (kept : Nat → Prop) (below : ∀ y, reserved y → kept y)
    (s : Volume) (entry n : Nat) (ready : Ready reserved dirty s)
    (same : ∀ y, ¬dirty y → s.device y = a.mem y) (bound : n ≤ 128 ^ level)
    (sound : Sound blocks (fun _ : Unit => level) (fun _ => True) kept a (fun _ => entry))
    (complete : ∀ path ∈ reach level n, node blocks a.mem entry path ≠ 0)
    (marked : ∀ path ∈ reach level n, bitmapTest s.vars.freeMap (node blocks a.mem entry path) = true) :
    ∃ t, (inodeDeallocateIndirect write level entry n).exec s = ((),t) ∧
      Releases reserved dirty ((reach level n).map (node blocks a.mem entry)) s t := by
  have top (height : Nat) : Key blocks (fun _ : Unit => height) (fun _ => True) () [] :=
    ⟨trivial,Nat.zero_le _,fun j member => absurd member List.not_mem_nil⟩
  induction level generalizing kept s entry n with
  | zero =>
    have only : [] ∈ reach 0 n := by simp [reach]
    exact releases_one ready isWrite entry
      (Releasable.of sound below () [] (top 0) (complete [] only) (marked [] only))
  | succ level ih =>
    have first : [] ∈ reach (level+1) n := by simp [reach]
    have present : entry ≠ 0 := complete [] first
    have own : Releasable reserved s entry := Releasable.of sound below () [] (top _) present (marked [] first)
    have block : s.device entry = a.mem entry := same entry fun stained => own.free (within entry stained)
    have unit := entryUnit_eq level (by omega)
    have few : (n + entryUnit (level+1) - 1) / entryUnit (level+1) ≤ 128 := by
      rw [unit]
      exact unit_count level n bound
    have under (k : Nat × List Nat) (member : k ∈ reachEntries (reach level) (entryUnit (level+1))
        ((n + entryUnit (level+1) - 1) / entryUnit (level+1)) 0 n) :
        k.1 :: k.2 ∈ reach (level+1) n ∧
          node blocks a.mem entry (k.1 :: k.2) = node blocks a.mem ((a.mem entry).word k.1) k.2 :=
      ⟨List.mem_cons_of_mem _ (List.mem_map.mpr ⟨k,member,rfl⟩),node_cons _ _ _ _ _ present⟩
    obtain ⟨t,run,children⟩ := deallocateEntries_spec (by omega : level ≤ 2) (Nat.le_of_eq unit)
      (inodeDeallocateIndirect write level) (fun s' entry' n' ready' same' bound' sound' complete' marked' =>
        ih (by omega) (fun y => kept y ∨ y = entry) (fun y taken => Or.inl (below y taken)) s' entry' n' ready'
          same' (unit ▸ bound') sound' complete' marked')
      (Sound.children present sound) ((n + entryUnit (level+1) - 1) / entryUnit (level+1)) 0 n s ready same
      ((Nat.zero_add _).trans_le few) (fun _ _ _ => rfl)
      (fun k member => (under k member).2 ▸ complete _ (under k member).1)
      (fun k member => (under k member).2 ▸ marked _ (under k member).1)
    -- no block below the entry is the entry itself
    have still : bitmapTest t.vars.freeMap entry = true := by
      refine (children.marks entry).mpr ⟨own.marked,fun member => ?_⟩
      obtain ⟨k,listed,equal⟩ := List.mem_map.mp member
      obtain ⟨inside,step⟩ := under k listed
      obtain ⟨short,digits⟩ := reach_key (level+1) n low bound _ inside
      have both := sound.single () (k.1 :: k.2) () [] ⟨trivial,short,digits⟩ (top _) (complete _ inside) (step.trans equal)
      exact List.cons_ne_nil _ _ both.2
    obtain ⟨u,last,second⟩ := releases_one children.ready isWrite entry ⟨still,own.positive,own.free⟩
    refine ⟨u,?_,(children.trans second).congr fun y => ?_⟩
    · have done : (n - (n + entryUnit (level+1) - 1) / entryUnit (level+1) * entryUnit (level+1) == 0) = true := by
        rw [beq_iff_eq,unit]
        exact Nat.sub_eq_zero_of_le (unit_covers (128 ^ level) n (Nat.pow_pos (by decide)))
      simp only [inodeDeallocateIndirect,Task.exec_bind,exec_bufferRead,block,run,done,panicUnless,if_true,Task.exec_pure,
        last]
    · rw [reach,List.map_cons,List.map_map,List.mem_cons,List.mem_append,List.mem_singleton,or_comm]
      refine or_congr ?_ Iff.rfl
      simp only [List.mem_map,Function.comp_apply,node_cons _ _ _ _ _ present]
      rfl

/-- Deallocating below a single pointer of the inode, if any block is wanted there. -/
theorem deallocatePointer_spec (isWrite : IsWrite write) (within : ∀ y, dirty y → reserved y) {a : Arena Sector}
    {d : Sector} (pointer depth n m : Nat) (inside : pointer < 125) (tall : height pointer = depth) (low : depth ≤ 2)
    (below : ∀ y, reserved y → kept y) (s : Volume) (ready : Ready reserved dirty s)
    (same : ∀ y, ¬dirty y → s.device y = a.mem y) (sound : SoundMap kept a d) (bound : m ≤ 128 ^ depth)
    (wanted : n = 0 ↔ m = 0)
    (complete : ∀ k ∈ (if n = 0 then [] else (reach depth m).map fun path => (pointer,path)),
      node blocks a.mem (d.word k.1) k.2 ≠ 0)
    (marked : ∀ k ∈ (if n = 0 then [] else (reach depth m).map fun path => (pointer,path)),
      bitmapTest s.vars.freeMap (node blocks a.mem (d.word k.1) k.2) = true) :
    ∃ t, Task.exec (if m > 0 then inodeDeallocateIndirect write depth (d.word pointer) m else pure ()) s = ((),t) ∧
      Releases reserved dirty ((if n = 0 then [] else (reach depth m).map fun path => (pointer,path)).map fun k =>
        node blocks a.mem (d.word k.1) k.2) s t := by
  by_cases none : n = 0
  · rw [if_pos none,if_neg (by omega)]
    exact ⟨s,rfl,Releases.refl ready⟩
  · rw [if_neg none] at complete marked ⊢
    rw [if_pos (by omega)]
    obtain ⟨t,run,released⟩ := deallocateIndirect_spec isWrite within depth low kept below s (d.word pointer) m ready
      same bound (tall ▸ Sound.tree sound pointer inside)
      (fun path member => complete (pointer,path) (List.mem_map_of_mem member))
      (fun path member => marked (pointer,path) (List.mem_map_of_mem member))
    refine ⟨t,run,?_⟩
    rw [List.map_map]
    exact released

/-- `inode_deallocate` of an inode that is complete for its length: it releases the blocks
that the length reaches, each of them while it is still marked. -/
theorem inodeDeallocate_spec (isWrite : IsWrite write) (within : ∀ y, dirty y → reserved y) {a : Arena Sector}
    {d : Sector} (natural : 0 ≤ d.length) (limit : d.length ≤ 8517120) (below : ∀ y, reserved y → kept y) (s : Volume)
    (ready : Ready reserved dirty s) (same : ∀ y, ¬dirty y → s.device y = a.mem y) (sound : SoundMap kept a d)
    (complete : ∀ k ∈ inodeReach (bytesToSectors d.length), node blocks a.mem (d.word k.1) k.2 ≠ 0)
    (marked : ∀ k ∈ inodeReach (bytesToSectors d.length),
      bitmapTest s.vars.freeMap (node blocks a.mem (d.word k.1) k.2) = true) :
    ∃ t, (inodeDeallocate write d).exec s = (true,t) ∧ Releases reserved dirty
      ((inodeReach (bytesToSectors d.length)).map fun k => node blocks a.mem (d.word k.1) k.2) s t := by
  have few := (bytesToSectors_le d.length natural (by omega)).mpr limit
  have keys := inodeReach_key (bytesToSectors d.length)
  have distinct := inodeReach_nodup (bytesToSectors d.length)
  generalize total : bytesToSectors d.length = n at complete marked few keys distinct
  have apart := List.nodup_append'.mp distinct
  have apart' := List.nodup_append'.mp apart.2.1
  have left (k : Nat × List Nat) (member : k ∈ reachEntries (reach 0) 1 (min n 123) 0 (min n 123)) : k ∈ inodeReach n :=
    List.mem_append_left _ member
  have right {k : Nat × List Nat} (member : k ∈ (if n - 123 = 0 then [] else (reach 1 (min (n - 123) 128)).map fun path => (123,path)) ++
      if n - 123 - 128 = 0 then [] else (reach 2 (min (n - 123 - 128) 16384)).map fun path => (124,path)) :
      k ∈ inodeReach n := List.mem_append_right _ member
  obtain ⟨t₁,run₁,first⟩ := deallocateEntries_spec (by decide : 0 ≤ 2) (by decide)
    (inodeDeallocateIndirect write 0) (fun s' entry' n' ready' same' bound' =>
      deallocateIndirect_spec isWrite within 0 (by decide) kept below s' entry' n' ready' same' bound')
    sound (min n 123) 0 (min n 123) s ready same (by omega) (fun j _ before => if_pos (by omega))
    (fun k member => complete k (left k member)) (fun k member => marked k (left k member))
  have rest (k : Nat × List Nat) (member : k ∈ (if n - 123 = 0 then [] else (reach 1 (min (n - 123) 128)).map fun path => (123,path)) ++
      if n - 123 - 128 = 0 then [] else (reach 2 (min (n - 123 - 128) 16384)).map fun path => (124,path)) :
      bitmapTest t₁.vars.freeMap (node blocks a.mem (d.word k.1) k.2) = true :=
    first.marked sound (fun j listed => keys j (left j listed)) k (keys k (right member)) (complete k (right member))
      (fun listed => apart.2.2 listed member) (marked k (right member))
  obtain ⟨t₂,run₂,second⟩ := deallocatePointer_spec isWrite within 123 1 (n - 123) (min (n - 123) 128) (by decide) rfl
    (by decide) below t₁ first.ready (fun y clean => (first.device y clean).trans (same y clean)) sound (by omega) (by omega)
    (fun k member => complete k (right (List.mem_append_left _ member)))
    (fun k member => rest k (List.mem_append_left _ member))
  have both := first.trans second
  obtain ⟨t₃,run₃,third⟩ := deallocatePointer_spec isWrite within 124 2 (n - 123 - 128) (min (n - 123 - 128) 16384)
    (by decide) rfl (by decide) below t₂ both.ready (fun y clean => (both.device y clean).trans (same y clean)) sound
    (by omega) (by omega) (fun k member => complete k (right (List.mem_append_right _ member)))
    (fun k member => second.marked sound (fun j listed => keys j (right (List.mem_append_left _ listed))) k
      (keys k (right (List.mem_append_right _ member))) (complete k (right (List.mem_append_right _ member)))
      (fun listed => apart'.2.2 listed member) (rest k (List.mem_append_right _ member)))
  refine ⟨t₃,?_,?_⟩
  · simp only [Task.exec_ite] at run₂ run₃
    have done : (n - 123 - 128 - 16384 == 0) = true := by
      rw [beq_iff_eq]
      omega
    have direct : (deallocateEntries (inodeDeallocateIndirect write 0) 1 (min n 123) 0 (min n 123) d).exec s = (_,t₁) := run₁
    simp only [inodeDeallocate,if_neg (Int.not_lt.mpr natural),total,Task.exec_bind,direct,Task.exec_ite]
    rw [show d.word 123 = d.indirectBlock from rfl] at run₂
    rw [show d.word 124 = d.doublyIndirectBlock from rfl] at run₃
    rw [run₂,run₃]
    simp only [done,panicUnless,if_true,Task.exec_pure]
  · have all := both.trans third
    rw [inodeReach,List.map_append,List.map_append,← List.append_assoc]
    exact all

end
end MyShell.FS
