import MyShell.FS.Allocate
import Mathlib.Data.List.Nodup

/-! `inode_reserve`: the block map of the inode grows by exactly the entries that are
missing, or every sector of the device is taken. -/
namespace MyShell.FS
open BlockProgram PointerForest Bitmap

/-- The entries a loop over a block goes through, with the paths below each. -/
def reachEntries (below : Nat → List (List Nat)) (unit : Nat) : Nat → Nat → Nat → List (Nat × List Nat)
  | 0, _, _ => []
  | count+1, i, n =>
    (below (min n unit)).map (fun path => (i,path)) ++ reachEntries below unit count (i+1) (n - min n unit)

/-- The paths from an entry of a level that the first `n` data blocks below it need. -/
def reach : Nat → Nat → List (List Nat)
  | 0, _ => [[]]
  | level+1, n => [] :: (reachEntries (reach level) (entryUnit (level+1))
      ((n + entryUnit (level+1) - 1) / entryUnit (level+1)) 0 n).map fun k => k.1 :: k.2

/-- The pointers and paths that the first `n` data blocks of an inode need. -/
def inodeReach (n : Nat) : List (Nat × List Nat) :=
  reachEntries (reach 0) 1 (min n 123) 0 (min n 123) ++
    ((if n - 123 = 0 then [] else (reach 1 (min (n - 123) 128)).map fun path => (123,path)) ++
      if n - 123 - 128 = 0 then [] else (reach 2 (min (n - 123 - 128) 16384)).map fun path => (124,path))

/-- How many of the entries are null. -/
def missing (block : Sector) (mem : Nat → Sector) (keys : List (Nat × List Nat)) : Nat :=
  keys.countP fun k => node blocks mem (block.word k.1) k.2 == 0

/-- A run that allocates: marks stay, a sector handed out was free, and `done` tells
whether every allocation succeeded. -/
structure Marks (s t : Volume) (done : Bool) : Prop where
  panics : t.vars.panics = s.vars.panics
  size : t.vars.freeMap.bitCnt = s.vars.freeMap.bitCnt
  mono : ∀ x, bitmapTest s.vars.freeMap x = true → bitmapTest t.vars.freeMap x = true
  log : ∃ new, t.vars.allocations = s.vars.allocations ++ new ∧ (none ∈ new ↔ done = false) ∧
    ∀ x, some x ∈ new → bitmapTest s.vars.freeMap x = false

/-- Either all the `wanted` sectors were found or there are none left. -/
structure Counts (s t : Volume) (done : Bool) (wanted : Nat) : Prop where
  count : done = true → t.vars.freeMap.clearCount + wanted = s.vars.freeMap.clearCount
  short : done = false → t.vars.freeMap.clearCount = 0 ∧ s.vars.freeMap.clearCount < wanted

structure Allocated (s t : Volume) (done : Bool) (wanted : Nat) : Prop extends Marks s t done, Counts s t done wanted where
  handles : t.vars.handles = s.vars.handles

section
variable {s t u : Volume} {done : Bool} {wanted more : Nat}

theorem Marks.refl (mem : Nat → Sector) : Marks s ⟨s.vars,mem⟩ true :=
  ⟨rfl,rfl,fun _ marked => marked,[],by simp,by simp,by simp⟩

theorem Marks.trans (first : Marks s t true) (second : Marks t u done) : Marks s u done := by
  refine ⟨second.panics.trans first.panics,second.size.trans first.size,
    fun x marked => second.mono x (first.mono x marked),?_⟩
  obtain ⟨old,left,failed,fresh⟩ := first.log
  obtain ⟨new,right,failed',fresh'⟩ := second.log
  refine ⟨old ++ new,by rw [right,left,List.append_assoc],?_,fun x member => ?_⟩
  · rw [List.mem_append,failed,failed']
    simp
  · rcases List.mem_append.mp member with before | after
    · exact fresh x before
    · cases marked : bitmapTest s.vars.freeMap x with
      | false => rfl
      | true => exact absurd ((first.mono x marked).symm.trans (fresh' x after)) (by decide)

/-- Neither handles nor the device are part of the marks. -/
theorem Marks.congr (marks : Marks s t done) (freeMap : u.vars.freeMap = t.vars.freeMap)
    (panics : u.vars.panics = t.vars.panics) (allocations : u.vars.allocations = t.vars.allocations) :
    Marks s u done := by
  obtain ⟨new,log⟩ := marks.log
  exact ⟨panics.trans marks.panics,by rw [freeMap,marks.size],by rw [freeMap]; exact marks.mono,new,
    by rw [allocations]; exact log⟩

theorem Counts.trans (first : Counts s t true wanted) (second : Counts t u done more) :
    Counts s u done (wanted + more) := by
  have found := first.count rfl
  constructor
  · intro finished
    have rest := second.count finished
    omega
  · intro stopped
    have rest := second.short stopped
    omega

theorem Allocated.refl : Allocated s s true 0 :=
  ⟨Marks.refl _,⟨fun _ => rfl,fun contrary => absurd contrary (by decide)⟩,rfl⟩

theorem Allocated.trans (first : Allocated s t true wanted) (second : Allocated t u done more) :
    Allocated s u done (wanted + more) :=
  ⟨first.toMarks.trans second.toMarks,first.toCounts.trans second.toCounts,second.handles.trans first.handles⟩

theorem Allocated.weaken (stopped : Allocated s t false wanted) (bound : wanted ≤ more) :
    Allocated s t false more :=
  ⟨stopped.toMarks,⟨fun contrary => absurd contrary (by decide),
    fun _ => ⟨(stopped.short rfl).1,Nat.lt_of_lt_of_le (stopped.short rfl).2 bound⟩⟩,stopped.handles⟩

/-- Writing to the device allocates nothing. -/
theorem Allocated.device (run : Allocated s t done wanted) (mem : Nat → Sector) :
    Allocated s ⟨t.vars,mem⟩ done wanted :=
  ⟨run.toMarks.congr rfl rfl rfl,⟨run.count,run.short⟩,run.handles⟩

end

theorem mem_reachEntries (below : Nat → List (List Nat)) (unit count i n : Nat) (k : Nat × List Nat)
    (member : k ∈ reachEntries below unit count i n) :
    i ≤ k.1 ∧ k.1 < i + count ∧ ∃ m ≤ unit, k.2 ∈ below m := by
  induction count generalizing i n with
  | zero => simp [reachEntries] at member
  | succ count ih =>
    rcases List.mem_append.mp member with here | later
    · obtain ⟨path,inside,same⟩ := List.mem_map.mp here
      rw [← same]
      exact ⟨Nat.le_refl _,by simp,_,Nat.min_le_right _ _,inside⟩
    · obtain ⟨low,high,found⟩ := ih (i+1) _ later
      exact ⟨by omega,by omega,found⟩

theorem mem_reachEntries_of (below : Nat → List (List Nat)) (unit count i n j : Nat) (path : List Nat) (low : i ≤ j)
    (high : j < i + count) (found : path ∈ below (min (n - (j - i) * unit) unit)) :
    (j,path) ∈ reachEntries below unit count i n := by
  induction count generalizing i n with
  | zero => omega
  | succ count ih =>
    by_cases here : j = i
    · subst here
      rw [Nat.sub_self,Nat.zero_mul,Nat.sub_zero] at found
      exact List.mem_append_left _ (List.mem_map_of_mem found)
    · apply List.mem_append_right
      apply ih (i+1) _ (by omega) (by omega)
      have step : (j - i) * unit = (j - (i+1)) * unit + unit := by
        rw [← Nat.succ_mul]
        congr 1
        omega
      rw [step] at found
      rwa [show min (n - min n unit - (j - (i+1)) * unit) unit = min (n - ((j - (i+1)) * unit + unit)) unit by omega]

theorem direct_reach (n k : Nat) (inside : k < n) : ((k,[]) : Nat × List Nat) ∈ reachEntries (reach 0) 1 n 0 n :=
  mem_reachEntries_of _ _ _ _ _ k [] (Nat.zero_le k) (by omega) (by simp [reach])

/-- The way to a data block is among the paths for it. -/
theorem inodeReach_data (n k : Nat) (inside : k < n) (limit : k < 16635) : dataPath k ∈ inodeReach n := by
  unfold inodeReach dataPath
  by_cases direct : k < 123
  · rw [if_pos direct]
    exact List.mem_append_left _ (direct_reach (min n 123) k (by omega))
  · rw [if_neg direct]
    apply List.mem_append_right
    have one (m j : Nat) (less : j < m) : [j] ∈ reach 1 m := by
      rw [reach,show entryUnit (0+1) = 1 from rfl,Nat.add_sub_cancel,Nat.div_one]
      exact List.mem_cons_of_mem _ (List.mem_map.mpr ⟨(j,[]),direct_reach m j less,rfl⟩)
    by_cases single : k < 251
    · rw [if_pos single,if_neg (by omega)]
      exact List.mem_append_left _ (List.mem_map_of_mem (one _ _ (by omega)))
    · rw [if_neg single,if_neg (by omega),if_neg (by omega)]
      apply List.mem_append_right
      apply List.mem_map_of_mem
      rw [reach,show entryUnit (1+1) = 128 from rfl]
      refine List.mem_cons_of_mem _ (List.mem_map.mpr ⟨((k - 251) / 128,[(k - 251) % 128]),?_,rfl⟩)
      exact mem_reachEntries_of _ _ _ _ _ _ _ (Nat.zero_le _) (by omega) (one _ _ (by omega))

/-- There are no blocks past those of the largest file. -/
theorem inodeReach_full (m n : Nat) (large : 16635 ≤ m) (large' : 16635 ≤ n) : inodeReach m = inodeReach n := by
  unfold inodeReach
  rw [if_neg (show m - 123 ≠ 0 by omega),if_neg (show n - 123 ≠ 0 by omega),
    if_neg (show m - 123 - 128 ≠ 0 by omega),if_neg (show n - 123 - 128 ≠ 0 by omega),
    show min m 123 = min n 123 by omega,show min (m - 123) 128 = min (n - 123) 128 by omega,
    show min (m - 123 - 128) 16384 = min (n - 123 - 128) 16384 by omega]

/-- The paths of a level are paths into its trees. -/
theorem reach_key (level n : Nat) (low : level ≤ 2) (bound : n ≤ 128 ^ level) :
    ∀ path ∈ reach level n, path.length ≤ level ∧ ∀ j ∈ path, j < 128 := by
  induction level generalizing n with
  | zero => simp [reach]
  | succ level ih =>
    have unit : entryUnit (level+1) = 128 ^ level := by
      obtain rfl | rfl : level = 0 ∨ level = 1 := by omega
      · rfl
      · rfl
    have count : (n + 128 ^ level - 1) / 128 ^ level ≤ 128 := by
      have positive : 0 < 128 ^ level := Nat.pow_pos (by decide)
      rw [Nat.div_le_iff_le_mul_add_pred positive]
      rw [Nat.pow_succ] at bound
      omega
    intro path member
    rw [reach,unit] at member
    rcases List.mem_cons.mp member with rfl | inner
    · simp
    · obtain ⟨k,inside,same⟩ := List.mem_map.mp inner
      obtain ⟨_,index,m,bound,found⟩ := mem_reachEntries _ _ _ _ _ k inside
      obtain ⟨short,digits⟩ := ih m (by omega) bound k.2 found
      rw [← same]
      refine ⟨Nat.succ_le_succ short,fun j member => ?_⟩
      rcases List.mem_cons.mp member with rfl | deeper
      · omega
      · exact digits j deeper

theorem reachEntries_key (depth unit count i n entries : Nat) (level : Nat → Nat) (low : depth ≤ 2)
    (fits : unit ≤ 128 ^ depth) (room : i + count ≤ entries) (even : ∀ j, i ≤ j → j < i + count → level j = depth)
    (k : Nat × List Nat) (member : k ∈ reachEntries (reach depth) unit count i n) :
    Key blocks level (· < entries) k.1 k.2 := by
  obtain ⟨after,before,m,bound,found⟩ := mem_reachEntries _ _ _ _ _ k member
  obtain ⟨short,digits⟩ := reach_key depth m low (bound.trans fits) k.2 found
  exact ⟨by omega,(even k.1 after before).symm ▸ short,digits⟩

/-- A run that reserves the entries `keys` of a block of pointers held in memory. -/
structure Reserves (reserved dirty : Nat → Prop) (level : Nat → Nat) (entries : Nat)
    (keys : List (Nat × List Nat)) (done : Bool) (s : Volume) (block : Sector) (t : Volume) (block' : Sector) : Prop where
  grow : Grow blocks level (· < entries) dirty done (arena s) block.word (arena t) block'.word
  ready : Ready reserved dirty t
  allocated : Allocated s t done (missing block s.device keys)
  cover : done = true → ∀ k ∈ keys, node blocks t.device (block'.word k.1) k.2 ≠ 0
  words : ∀ j < 128, (∀ k ∈ keys, k.1 ≠ j) → block'.word j = block.word j
  still : ∀ j < entries, (∀ k ∈ keys, k.1 ≠ j) → ∀ path, Key blocks level (· < entries) j path →
    node blocks t.device (block'.word j) path = node blocks s.device (block.word j) path

/-- The same for the tree of one entry. -/
structure ReservesTree (reserved dirty : Nat → Prop) (level : Nat) (paths : List (List Nat)) (done : Bool)
    (s : Volume) (entry : Nat) (t : Volume) (entry' : Nat) : Prop where
  grow : Grow blocks (fun _ : Unit => level) (fun _ => True) dirty done (arena s) (fun _ => entry)
    (arena t) (fun _ => entry')
  ready : Ready reserved dirty t
  allocated : Allocated s t done (paths.countP fun path => node blocks s.device entry path == 0)
  cover : done = true → ∀ path ∈ paths, node blocks t.device entry' path ≠ 0

section
variable {reserved dirty kept : Nat → Prop} {level : Nat → Nat} {entries : Nat} {done : Bool}
variable {keys keys' : List (Nat × List Nat)} {s t u : Volume} {block block' block'' : Sector}

theorem Reserves.refl (ready : Ready reserved dirty s) : Reserves reserved dirty level entries [] true s block s block where
  grow := Grow.refl
  ready := ready
  allocated := Allocated.refl
  cover _ _ member := absurd member List.not_mem_nil
  words _ _ _ := rfl
  still _ _ _ _ _ := rfl

theorem Reserves.append (sound : Sound blocks level (· < entries) kept (arena s) block.word)
    (held : ∀ x, kept x → bitmapTest s.vars.freeMap x = true) (within : ∀ x, dirty x → kept x)
    (first : Reserves reserved dirty level entries keys true s block t block')
    (second : Reserves reserved dirty level entries keys' done t block' u block'')
    (apart : ∀ k ∈ keys, ∀ k' ∈ keys', k.1 ≠ k'.1) (valid : ∀ k ∈ keys, Key blocks level (· < entries) k.1 k.2)
    (valid' : ∀ k ∈ keys', Key blocks level (· < entries) k.1 k.2) :
    Reserves reserved dirty level entries (keys ++ keys') done s block u block'' := by
  have same : missing block' t.device keys' = missing block s.device keys' := by
    apply List.countP_congr
    intro k member
    rw [first.still k.1 (valid' k member).dom (fun k' inside => apart k' inside k member) k.2 (valid' k member)]
  refine ⟨Grow.trans sound held within first.grow second.grow,second.ready,?_,?_,?_,?_⟩
  · have whole := first.allocated.trans second.allocated
    rwa [same,missing,missing,← List.countP_append] at whole
  · intro finished k member
    rcases List.mem_append.mp member with before | after
    · have there := first.cover rfl k before
      have stays := second.grow.kept k.1 k.2 (valid k before) there
      change node blocks u.device (block''.word k.1) k.2 ≠ 0
      exact stays.trans_ne there
    · exact second.cover finished k after
  · intro j small outside
    rw [second.words j small fun k member => outside k (List.mem_append_right _ member),
      first.words j small fun k member => outside k (List.mem_append_left _ member)]
  · intro j small outside path key
    rw [second.still j small (fun k member => outside k (List.mem_append_right _ member)) path key,
      first.still j small (fun k member => outside k (List.mem_append_left _ member)) path key]

theorem Reserves.stopped (first : Reserves reserved dirty level entries keys false s block t block') :
    Reserves reserved dirty level entries (keys ++ keys') false s block t block' where
  grow := first.grow
  ready := first.ready
  allocated := first.allocated.weaken (by simp only [missing,List.countP_append]; omega)
  cover contrary := absurd contrary (by decide)
  words j small outside := first.words j small fun k member => outside k (List.mem_append_left _ member)
  still j small outside := first.still j small fun k member => outside k (List.mem_append_left _ member)

/-- What is set in a block is a sector of the bitmap, or the word that was there. -/
theorem ReservesTree.entry_lt {paths : List (List Nat)} {i depth entry' : Nat}
    (run : ReservesTree reserved dirty depth paths done s (block.word i) t entry') : entry' < 4294967296 := by
  have top : Key blocks (fun _ : Unit => depth) (fun _ => True) () [] := ⟨trivial,by simp,by simp⟩
  by_cases null : entry' = 0
  · omega
  · by_cases old : block.word i = 0
    · have marked : bitmapTest t.vars.freeMap entry' = true := (run.grow.fresh () [] top old null).2
      have limit : entry' < 4294967295 := marked_small _ run.ready.packed run.ready.small _ marked
      omega
    · have same : entry' = block.word i := run.grow.kept () [] top old
      rw [same]
      exact block.word_lt i

/-- Reserving below one entry of the block, which is then set in it. -/
theorem ReservesTree.entry {paths : List (List Nat)} {i depth entry' : Nat} (here : level i = depth)
    (sound : Sound blocks level (· < entries) kept (arena s) block.word) (within : ∀ x, dirty x → kept x)
    (inside : i < entries) (small : entries ≤ 128) (some : paths ≠ [])
    (run : ReservesTree reserved dirty depth paths done s (block.word i) t entry') :
    Reserves reserved dirty level entries (paths.map fun path => (i,path)) done s block t (block.setWord i entry') := by
  subst here
  have words (j : Nat) (low : j < 128) : (block.setWord i entry').word j = if j = i then entry' else block.word j :=
    Sector.word_setWord block i entry' j low run.entry_lt
  have elsewhere (j : Nat) (outside : ∀ k ∈ paths.map fun path => (i,path), k.1 ≠ j) : j ≠ i := by
    obtain ⟨path,member⟩ := List.exists_mem_of_ne_nil paths some
    exact (outside (i,path) (List.mem_map_of_mem member)).symm
  have forest := Grow.tree sound within i inside entry' run.grow
  refine ⟨forest.sub fun j low => Or.inl ?_,run.ready,?_,?_,?_,?_⟩
  · rw [words j (by omega),Function.update_apply]
  · have same : missing block s.device (paths.map fun path => (i,path)) =
        paths.countP fun path => node blocks s.device (block.word i) path == 0 := by
      rw [missing,List.countP_map]
      rfl
    rw [same]
    exact run.allocated
  · intro finished k member
    obtain ⟨path,here,same⟩ := List.mem_map.mp member
    rw [← same]
    change node blocks t.device ((block.setWord i entry').word i) path ≠ 0
    rw [words i (by omega),if_pos rfl]
    exact run.cover finished path here
  · intro j low outside
    rw [words j low,if_neg (elsewhere j outside)]
  · intro j low outside path key
    have other := elsewhere j outside
    rw [words j (by omega),if_neg other]
    exact Grow.others (Subforest.tree i inside) sound within run.grow j path key fun _ _ => other.symm

/-- The loop over the entries of a block. -/
theorem reserveEntries_spec {depth unit : Nat} (reserve : Nat → Nat → FsM (Bool × Nat))
    (positive : 0 < unit) (low : depth ≤ 2) (fits : unit ≤ 128 ^ depth)
    (tree : ∀ (s : Volume) (entry n : Nat), Ready reserved dirty s → (∀ x, kept x → bitmapTest s.vars.freeMap x = true) →
      Sound blocks (fun _ : Unit => depth) (fun _ => True) kept (arena s) (fun _ => entry) → 0 < n → n ≤ 128 ^ depth →
      ReservesTree reserved dirty depth (reach depth n) ((reserve entry n).exec s).1.1 s entry
        ((reserve entry n).exec s).2 ((reserve entry n).exec s).1.2)
    (within : ∀ x, dirty x → kept x) (small : entries ≤ 128) (count i n : Nat) (s : Volume) (block : Sector)
    (ready : Ready reserved dirty s) (held : ∀ x, kept x → bitmapTest s.vars.freeMap x = true)
    (sound : Sound blocks level (· < entries) kept (arena s) block.word) (room : i + count ≤ entries)
    (even : ∀ j, i ≤ j → j < i + count → level j = depth) (covers : ∀ c < count, c * unit < n) :
    Reserves reserved dirty level entries (reachEntries (reach depth) unit count i n)
      ((reserveEntries reserve unit count i n block).exec s).1.1 s block
      ((reserveEntries reserve unit count i n block).exec s).2
      ((reserveEntries reserve unit count i n block).exec s).1.2 := by
  induction count generalizing i n s block with
  | zero => exact Reserves.refl ready
  | succ count ih =>
    have some : 0 < n := by simpa using covers 0 (by omega)
    have here : level i = depth := even i (Nat.le_refl _) (by omega)
    have run := tree s (block.word i) (min n unit) ready held (here ▸ sound.tree i (by omega)) (by omega)
      ((Nat.min_le_right _ _).trans fits)
    have nonempty : reach depth (min n unit) ≠ [] := by cases depth <;> simp [reach]
    have first := run.entry here sound within (by omega) small nonempty
    simp only [reserveEntries,Task.exec_bind,Task.exec_ite,Task.exec_pure]
    generalize (reserve (block.word i) (min n unit)).exec s = outcome at first ⊢
    obtain ⟨⟨found,entry⟩,t⟩ := outcome
    cases found with
    | false => exact first.stopped
    | true =>
      simp only [if_true]
      have marks (x : Nat) (taken : kept x) : bitmapTest t.vars.freeMap x = true := first.allocated.mono x (held x taken)
      have rest := ih (i+1) (n - min n unit) t (block.setWord i entry) first.ready marks (sound.grow first.grow held)
        (by omega) (fun j after before => even j (by omega) (by omega)) (fun c before => by
          have next := covers (c+1) (by omega)
          rw [Nat.succ_mul] at next
          omega)
      have valid := reachEntries_key depth unit (count+1) i n entries level low fits room even
      refine Reserves.append sound held within first rest ?_ (fun k member => valid k (List.mem_append_left _ member))
        (fun k member => valid k (List.mem_append_right _ member))
      intro k member k' member'
      obtain ⟨path,_,same⟩ := List.mem_map.mp member
      have after := (mem_reachEntries _ _ _ _ _ k' member').1
      rw [← same]
      exact Nat.ne_of_lt after

/-- With every sector taken, an empty entry stays empty and block 0 may be blanked. -/
theorem reserveIndirect_full (write : Writer) (level n : Nat) (some : 0 < n) (s : Volume)
    (full : bitmapScan s.vars.freeMap 0 1 false = none) :
    ∃ new mem, (inodeReserveIndirect write level 0 n).exec s =
        ((false,0),⟨{s.vars with allocations := s.vars.allocations ++ new},mem⟩) ∧
      none ∈ new ∧ (∀ x, Option.some x ∉ new) ∧ ∀ x, x ≠ 0 → mem x = s.device x := by
  induction level generalizing n s with
  | zero =>
    refine ⟨[none],s.device,?_,by simp,by simp,fun _ _ => rfl⟩
    simp only [inodeReserveIndirect,if_true,Task.exec_bind,allocate_full write s full,Task.exec_pure]
  | succ level ih =>
    have positive : 0 < entryUnit (level+1) := by unfold entryUnit; split <;> decide
    have count : ∃ count, (n + entryUnit (level+1) - 1) / entryUnit (level+1) = count + 1 :=
      Nat.exists_eq_add_one.mpr (Nat.div_pos (by omega) positive)
    obtain ⟨count,passes⟩ := count
    obtain ⟨new,mem,run,failed,nothing,frame⟩ := ih (min n (entryUnit (level+1))) (by omega)
      ⟨{s.vars with allocations := s.vars.allocations ++ [none]},Function.update s.device 0 Sector.zeros⟩ full
    refine ⟨none :: new,mem,?_,by simp,by simp [nothing],fun x present => ?_⟩
    · simp only [inodeReserveIndirect,if_true,reserveBlock,Task.exec_bind,allocate_full write s full,Option.getD_none,
        exec_bufferWrite,Task.exec_pure,exec_bufferRead,Function.update_self,passes,reserveEntries,Sector.word_zeros,run,
        Bool.false_eq_true,if_false]
      simp
    · rw [frame x present]
      exact Function.update_of_ne present _ _

/-- A sector allocated and blanked for an empty entry. -/
theorem allocateBlank_spec {write : Writer} (ready : Ready reserved dirty s) (isWrite : IsWrite write) (depth x : Nat)
    (t : Volume) (run : (freeMapAllocate write 1).exec s = (some x,t)) :
    x ≠ 0 ∧ bitmapTest s.vars.freeMap x = false ∧
      Grow blocks (fun _ : Unit => depth) (fun _ => True) dirty done (arena s) (fun _ => 0)
        (arena {t with device := Function.update t.device x Sector.zeros}) (fun _ => x) ∧
      Ready reserved dirty {t with device := Function.update t.device x Sector.zeros} ∧
      Allocated s {t with device := Function.update t.device x Sector.zeros} true 1 := by
  rcases allocate_spec ready isWrite with ⟨y,mem,same,inside,clear,frame,after⟩ | ⟨full⟩
  · rw [same] at run
    simp only [Prod.mk.injEq,Option.some.injEq] at run
    obtain ⟨rfl,rfl⟩ := run
    have present : y ≠ 0 := by
      rintro rfl
      rw [ready.origin] at clear
      contradiction
    have unreserved : ¬reserved y := by
      intro taken
      rw [ready.held y taken] at clear
      contradiction
    have marks (x : Nat) : bitmapTest (bitmapSet s.vars.freeMap y true) x =
        if x = y then true else bitmapTest s.vars.freeMap x := test_set _ ready.packed.length _ _ _ inside
    have mono (x : Nat) (marked : bitmapTest s.vars.freeMap x = true) :
        bitmapTest (bitmapSet s.vars.freeMap y true) x = true := by
      rw [marks]
      split
      · rfl
      · exact marked
    refine ⟨present,clear,?_,after.update y Sector.zeros unreserved,?_⟩
    · apply Grow.alloc present (by simp [arena,clear]) mono
      · exact (marks y).trans (if_pos rfl)
      · exact Function.update_self _ _ _
      · intro x marked clean
        have other : x ≠ y := by
          rintro rfl
          exact absurd (marked.symm.trans clear) (by decide)
        exact (Function.update_of_ne other _ _).trans (frame x clean)
    · refine ⟨⟨rfl,by simp,mono,[some y],rfl,by simp,?_⟩,⟨fun _ => ?_,fun contrary => absurd contrary (by decide)⟩,rfl⟩
      · intro x member
        simp only [List.mem_singleton,Option.some.injEq] at member
        rw [member]
        exact clear
      · exact clearCount_mark _ ready.packed.length y inside clear
  · rw [allocate_full write s full] at run
    simp at run

theorem entryUnit_eq (level : Nat) (low : level ≤ 1) : entryUnit (level+1) = 128 ^ level := by
  obtain rfl | rfl : level = 0 ∨ level = 1 := by omega
  · rfl
  · rfl

theorem unit_count (level n : Nat) (bound : n ≤ 128 ^ (level+1)) : (n + 128 ^ level - 1) / 128 ^ level ≤ 128 := by
  have positive : 0 < 128 ^ level := Nat.pow_pos (by decide)
  rw [Nat.div_le_iff_le_mul_add_pred positive]
  rw [Nat.pow_succ] at bound
  omega

theorem unit_passes (unit n c : Nat) (positive : 0 < unit) (pass : c < (n + unit - 1) / unit) : c * unit < n := by
  have bound := (Nat.le_div_iff_mul_le positive).mp (Nat.succ_le_of_lt pass)
  rw [Nat.succ_mul] at bound
  omega

/-- Below a block that is there, what is missing is missing from its entries. -/
theorem countP_reach (level n : Nat) (mem : Nat → Sector) (entry : Nat) (low : level ≤ 1) (present : entry ≠ 0) :
    ((reach (level+1) n).countP fun path => node blocks mem entry path == 0) =
      missing (mem entry) mem (reachEntries (reach level) (128 ^ level) ((n + 128 ^ level - 1) / 128 ^ level) 0 n) := by
  rw [reach,entryUnit_eq level low,List.countP_cons_of_neg (by simpa [node] using present),List.countP_map]
  apply List.countP_congr
  intro k _
  rw [Function.comp,node_cons _ _ _ _ _ present]
  rfl

/-- `inode_reserve_indirect` above level 0, once the entry has its block. -/
theorem reserveBlock_spec {write : Writer} {level entry n : Nat} (low : level ≤ 1) (within : ∀ x, dirty x → kept x)
    (tree : ∀ (kept : Nat → Prop) (s : Volume) (entry n : Nat), Ready reserved dirty s → (∀ x, reserved x → kept x) →
      (∀ x, kept x → bitmapTest s.vars.freeMap x = true) →
      Sound blocks (fun _ : Unit => level) (fun _ => True) kept (arena s) (fun _ => entry) → 0 < n → n ≤ 128 ^ level →
      ReservesTree reserved dirty level (reach level n) ((inodeReserveIndirect write level entry n).exec s).1.1 s entry
        ((inodeReserveIndirect write level entry n).exec s).2 ((inodeReserveIndirect write level entry n).exec s).1.2)
    (ready : Ready reserved dirty s) (below : ∀ x, reserved x → kept x)
    (held : ∀ x, kept x → bitmapTest s.vars.freeMap x = true) (present : entry ≠ 0)
    (sound : Sound blocks (fun _ : Unit => level + 1) (fun _ => True) kept (arena s) (fun _ => entry))
    (bound : n ≤ 128 ^ (level+1)) :
    ReservesTree reserved dirty (level+1) (reach (level+1) n)
      ((inodeReserveIndirect write (level+1) entry n).exec s).1.1 s entry
      ((inodeReserveIndirect write (level+1) entry n).exec s).2
      ((inodeReserveIndirect write (level+1) entry n).exec s).1.2 := by
  have unit := entryUnit_eq level low
  have positive : 0 < 128 ^ level := Nat.pow_pos (by decide)
  have top : Key blocks (fun _ : Unit => level + 1) (fun _ => True) () [] := ⟨trivial,by simp,by simp⟩
  have own : bitmapTest s.vars.freeMap entry = true := sound.marked () [] top present
  have free : ¬kept entry := sound.apart () [] top present
  have held' (x : Nat) (taken : kept x ∨ x = entry) : bitmapTest s.vars.freeMap x = true :=
    taken.elim (held x) fun same => same ▸ own
  have filled := reserveEntries_spec (inodeReserveIndirect write level) positive
    (by omega : level ≤ 2) (Nat.le_refl _)
    (fun t e m ready' held' sound' => tree (fun x => kept x ∨ x = entry) t e m ready' (fun x taken => Or.inl (below x taken))
      held' sound')
    (fun x stained => Or.inl (within x stained)) (Nat.le_refl 128) ((n + 128 ^ level - 1) / 128 ^ level) 0 n s
    (s.device entry) ready held' (sound.children present) (by simpa using unit_count level n bound) (fun _ _ _ => rfl)
    (fun c before => unit_passes _ n c positive before)
  simp only [inodeReserveIndirect,present,if_false,Task.exec_bind,Task.exec_pure,exec_bufferRead,Task.exec_ite,
    exec_bufferWrite,unit]
  generalize (reserveEntries (inodeReserveIndirect write level) (128 ^ level) ((n + 128 ^ level - 1) / 128 ^ level) 0 n
    (s.device entry)).exec s = outcome at filled ⊢
  obtain ⟨⟨found,block⟩,t⟩ := outcome
  have untouched : t.device entry = s.device entry := by
    apply filled.grow.frame entry own (fun stained => free (within entry stained)) (Or.inr present)
    exact fun i path key _ here same => (sound.children present).apart i path key here (Or.inr same)
  cases found with
  | false =>
    simp only [Bool.false_eq_true,if_false]
    refine ⟨?_,filled.ready,?_,fun contrary => absurd contrary (by decide)⟩
    · exact Grow.block present held sound filled.grow rfl (fun _ _ => rfl)
        (fun i _ => Or.inr (congrArg (blocks.word · i) untouched))
    · rw [countP_reach level n s.device entry low present]
      exact filled.allocated
  | true =>
    simp only [if_true]
    have recorded (x : Nat) (other : x ≠ entry) : Function.update t.device entry block x = t.device x :=
      Function.update_of_ne other _ _
    refine ⟨?_,filled.ready.update entry block fun taken => free (below entry taken),?_,fun _ path member => ?_⟩
    · refine Grow.block present held sound filled.grow rfl (fun x other => recorded x other) fun i _ => Or.inl ?_
      exact congrArg (blocks.word · i) (Function.update_self _ _ _)
    · rw [countP_reach level n s.device entry low present]
      exact filled.allocated.device _
    · rw [reach,unit] at member
      rcases List.mem_cons.mp member with rfl | inner
      · exact present
      · obtain ⟨k,inside,same⟩ := List.mem_map.mp inner
        have key := reachEntries_key level (128 ^ level) _ 0 n 128 (fun _ => level) (by omega) (Nat.le_refl _)
          (by simpa using unit_count level n bound) (fun _ _ _ => rfl) k inside
        have after := (sound.children present).grow filled.grow held'
        rw [← same,node_cons _ _ _ _ _ present]
        change node blocks (Function.update t.device entry block)
          ((Function.update t.device entry block entry).word k.1) k.2 ≠ 0
        rw [Function.update_self]
        have same : node blocks (Function.update t.device entry block) (block.word k.1) k.2 =
            node blocks t.device (block.word k.1) k.2 :=
          after.node_eq _ k.1 k.2 key fun x _ apart _ _ => recorded x fun own => apart (Or.inr own)
        rw [same]
        exact filled.cover rfl k inside

theorem countP_null (mem : Nat → Sector) (paths : List (List Nat)) :
    (paths.countP fun path => node blocks mem 0 path == 0) = paths.length := by
  simp [node_null]

theorem reserveIndirect_none {write : Writer} (level n : Nat) (ready : Ready reserved dirty s) (some : 0 < n)
    (full : bitmapScan s.vars.freeMap 0 1 false = none) :
    ReservesTree reserved dirty level (reach level n) ((inodeReserveIndirect write level 0 n).exec s).1.1 s 0
      ((inodeReserveIndirect write level 0 n).exec s).2 ((inodeReserveIndirect write level 0 n).exec s).1.2 := by
  obtain ⟨new,mem,run,failed,nothing,frame⟩ := reserveIndirect_full write level n some s full
  have taken := clearCount_eq_zero _ (scan_none _ full)
  have nonempty : 0 < (reach level n).length := by cases level <;> simp [reach]
  rw [run]
  refine ⟨Grow.failed (fun _ marked => marked) (fun x _ _ present => frame x present),?_,?_,
    fun contrary => absurd contrary (by simp)⟩
  · exact (ready.writes mem fun x present _ => frame x present).vars _ rfl rfl rfl
  · refine ⟨⟨rfl,rfl,fun _ marked => marked,new,rfl,by simp [failed],fun x member => absurd member (nothing x)⟩,
      ⟨fun contrary => absurd contrary (by simp),fun _ => ⟨taken,?_⟩⟩,rfl⟩
    rw [countP_null,taken]
    exact nonempty

/-- `inode_reserve_indirect`: on success every block the entry needs is there, and on
failure no free sector is left. -/
theorem reserveIndirect_spec {write : Writer} (isWrite : IsWrite write) (within : ∀ x, dirty x → reserved x)
    (level : Nat) (low : level ≤ 2) (kept : Nat → Prop) (s : Volume) (entry n : Nat) (ready : Ready reserved dirty s)
    (below : ∀ x, reserved x → kept x) (held : ∀ x, kept x → bitmapTest s.vars.freeMap x = true)
    (sound : Sound blocks (fun _ : Unit => level) (fun _ => True) kept (arena s) (fun _ => entry))
    (some : 0 < n) (bound : n ≤ 128 ^ level) :
    ReservesTree reserved dirty level (reach level n) ((inodeReserveIndirect write level entry n).exec s).1.1 s entry
      ((inodeReserveIndirect write level entry n).exec s).2 ((inodeReserveIndirect write level entry n).exec s).1.2 := by
  induction level generalizing kept s entry n with
  | zero =>
    by_cases empty : entry = 0
    · subst empty
      rcases allocate_spec ready isWrite with ⟨x,mem,run,_⟩ | none
      · obtain ⟨present,_,grow,after,allocated⟩ := allocateBlank_spec ready isWrite 0 x _ run
        simp only [inodeReserveIndirect,if_true,Task.exec_bind,run,exec_bufferWrite,Task.exec_pure]
        refine ⟨grow,after,by rw [countP_null]; exact allocated,fun _ path member => ?_⟩
        rw [List.mem_singleton.mp member]
        exact present
      · exact reserveIndirect_none 0 n ready some none
    · simp only [inodeReserveIndirect,if_neg empty,Task.exec_pure]
      refine ⟨Grow.refl,ready,?_,fun _ path member => ?_⟩
      · rw [show (reach 0 n).countP (fun path => node blocks s.device entry path == 0) = 0 by simp [reach,node,empty]]
        exact Allocated.refl
      · rw [List.mem_singleton.mp member]
        exact empty
  | succ level ih =>
    have step (t : Volume) (entry : Nat) (ready : Ready reserved dirty t)
        (held : ∀ x, kept x → bitmapTest t.vars.freeMap x = true) (present : entry ≠ 0)
        (sound : Sound blocks (fun _ : Unit => level + 1) (fun _ => True) kept (arena t) (fun _ => entry)) :=
      reserveBlock_spec (by omega) (fun x stained => below x (within x stained)) (ih (by omega)) ready below held
        present sound bound
    by_cases empty : entry = 0
    · subst empty
      rcases allocate_spec ready isWrite with ⟨x,mem,run,_⟩ | none
      · obtain ⟨present,_,grow,after,allocated⟩ := allocateBlank_spec ready isWrite (level+1) x _ run
        have rest := step _ x after (fun y taken => allocated.mono y (held y taken)) present (sound.grow grow held)
        have same : (inodeReserveIndirect write (level+1) 0 n).exec s = (inodeReserveIndirect write (level+1) x n).exec
            ⟨{s.vars with
              freeMap := bitmapSet s.vars.freeMap x true
              allocations := s.vars.allocations ++ [Option.some x]},Function.update mem x Sector.zeros⟩ := by
          simp only [inodeReserveIndirect,if_true,if_neg present,reserveBlock,Task.exec_bind,run,exec_bufferWrite,
            Option.getD_some,Task.exec_pure]
        rw [same]
        refine ⟨Grow.trans sound held (fun y stained => below y (within y stained)) grow rest.grow,rest.ready,?_,rest.cover⟩
        have total := allocated.trans rest.allocated
        have counts : (reach (level+1) n).countP (fun path => node blocks s.device 0 path == 0) =
            1 + (reach (level+1) n).countP fun path =>
              node blocks (Function.update mem x Sector.zeros) x path == 0 := by
          rw [countP_null,countP_reach level n _ x (by omega) present,Function.update_self,missing]
          simp only [Sector.word_zeros,node_null]
          rw [reach,entryUnit_eq level (by omega),List.length_cons,List.length_map]
          simp [Nat.add_comm]
        rwa [← counts] at total
      · exact reserveIndirect_none (level+1) n ready some none
    · exact step s entry ready held empty sound

theorem pointer_key (pointer depth n : Nat) (inside : pointer < 125) (tall : height pointer = depth) (low : depth ≤ 2)
    (bound : n ≤ 128 ^ depth) (k : Nat × List Nat) (member : k ∈ (reach depth n).map fun path => (pointer,path)) :
    Key blocks height (· < 125) k.1 k.2 := by
  obtain ⟨path,found,same⟩ := List.mem_map.mp member
  obtain ⟨short,digits⟩ := reach_key depth n low bound path found
  rw [← same]
  exact ⟨inside,tall ▸ short,digits⟩

theorem direct_key (n : Nat) (k : Nat × List Nat)
    (member : k ∈ reachEntries (reach 0) 1 (min n 123) 0 (min n 123)) : Key blocks height (· < 125) k.1 k.2 :=
  reachEntries_key 0 1 (min n 123) 0 (min n 123) 125 height (by decide) (by decide) (by omega)
    (fun j _ before => if_pos (by omega)) k member

theorem inodeReach_key (n : Nat) (k : Nat × List Nat) (member : k ∈ inodeReach n) :
    Key blocks height isPointer k.1 k.2 := by
  rcases List.mem_append.mp member with direct | rest
  · exact direct_key n k direct
  · rcases List.mem_append.mp rest with single | double
    · split at single
      · simp at single
      · exact pointer_key 123 1 _ (by decide) rfl (by decide) (by omega) k single
    · split at double
      · simp at double
      · exact pointer_key 124 2 _ (by decide) rfl (by decide) (by omega) k double

/-- Reserving below a single pointer of the inode. -/
theorem reservePointer_spec {write : Writer} (isWrite : IsWrite write) (within : ∀ x, dirty x → reserved x)
    (pointer depth n : Nat) (inside : pointer < 125) (tall : height pointer = depth) (low : depth ≤ 2) (s : Volume)
    (d : Sector) (ready : Ready reserved dirty s) (below : ∀ x, reserved x → kept x)
    (held : ∀ x, kept x → bitmapTest s.vars.freeMap x = true) (sound : Sound blocks height (· < 125) kept (arena s) d.word)
    (some : 0 < n) (bound : n ≤ 128 ^ depth) :
    Reserves reserved dirty height 125 ((reach depth n).map fun path => (pointer,path))
      ((inodeReserveIndirect write depth (d.word pointer) n).exec s).1.1 s d
      ((inodeReserveIndirect write depth (d.word pointer) n).exec s).2
      (d.setWord pointer ((inodeReserveIndirect write depth (d.word pointer) n).exec s).1.2) := by
  have tree := tall ▸ Sound.tree sound pointer inside
  have run := reserveIndirect_spec isWrite within depth low kept s (d.word pointer) n ready below held tree some bound
  exact run.entry tall sound (fun x stained => below x (within x stained)) inside (by decide)
    (by cases depth <;> simp [reach])

/-- `inode_reserve`: the blocks for `length` bytes, as far as there are sectors. It
succeeds when all were found and the length is not beyond the largest file. -/
theorem inodeReserve_spec {write : Writer} (isWrite : IsWrite write) (within : ∀ x, dirty x → reserved x) (s : Volume)
    (d : Sector) (length : Int) (ready : Ready reserved dirty s) (below : ∀ x, reserved x → kept x)
    (held : ∀ x, kept x → bitmapTest s.vars.freeMap x = true) (sound : SoundMap kept (arena s) d)
    (natural : 0 ≤ length) :
    ∃ done, Reserves reserved dirty height 125 (inodeReach (bytesToSectors length)) done s d
        ((inodeReserve write d length).exec s).2 ((inodeReserve write d length).exec s).1.2 ∧
      ((inodeReserve write d length).exec s).1.1 = (done && decide (bytesToSectors length ≤ 16635)) := by
  have clean (x : Nat) (stained : dirty x) : kept x := below x (within x stained)
  simp only [inodeReserve,if_neg (Int.not_lt.mpr natural),inodeReach]
  generalize bytesToSectors length = n
  have first := reserveEntries_spec (inodeReserveIndirect write 0) (by decide : 0 < 1)
    (by decide : 0 ≤ 2) (by decide) (fun t e m ready' held' sound' =>
      reserveIndirect_spec isWrite within 0 (by decide) kept t e m ready' below held' sound') clean (by decide)
    (min n 123) 0 (min n 123) s d ready held sound (by omega) (fun j _ before => if_pos (by omega)) (fun c before => by omega)
  have direct := direct_key n
  have low (k : Nat × List Nat) (member : k ∈ reachEntries (reach 0) 1 (min n 123) 0 (min n 123)) : k.1 < 123 := by
    have bound := (mem_reachEntries _ _ _ _ _ k member).2.1
    omega
  generalize reachEntries (reach 0) 1 (min n 123) 0 (min n 123) = keys₁ at first direct low ⊢
  simp only [Task.exec_bind,Task.exec_ite,Task.exec_pure]
  generalize (reserveEntries (inodeReserveIndirect write 0) 1 (min n 123) 0 (min n 123) d).exec s = outcome at first ⊢
  obtain ⟨⟨found,d₁⟩,t⟩ := outcome
  cases found with
  | false => exact ⟨false,first.stopped,by simp⟩
  | true =>
    simp only [Bool.not_true,Bool.false_eq_true,if_false]
    by_cases enough : n - 123 = 0
    · simp only [enough,if_true,Nat.zero_sub,List.append_nil]
      exact ⟨true,first,by simp; omega⟩
    · simp only [if_neg enough]
      have held₁ (x : Nat) (taken : kept x) := first.allocated.mono x (held x taken)
      have sound₁ := Sound.grow sound first.grow held
      have second := reservePointer_spec isWrite within 123 1 (min (n - 123) 128) (by decide) rfl (by decide) t d₁
        first.ready below held₁ sound₁ (by omega) (by omega)
      have single := pointer_key 123 1 (min (n - 123) 128) (by decide) rfl (by decide) (by omega)
      have index (k : Nat × List Nat) (member : k ∈ (reach 1 (min (n - 123) 128)).map fun path => (123,path)) :
          k.1 = 123 := by
        obtain ⟨path,_,same⟩ := List.mem_map.mp member
        rw [← same]
      generalize (reach 1 (min (n - 123) 128)).map (fun path => (123,path)) = keys₂ at second single index ⊢
      rw [show d₁.word 123 = d₁.indirectBlock from rfl] at second
      generalize (inodeReserveIndirect write 1 d₁.indirectBlock (min (n - 123) 128)).exec t = outcome at second ⊢
      obtain ⟨⟨found,entry⟩,t₂⟩ := outcome
      have double := pointer_key 124 2 (min (n - 123 - 128) 16384) (by decide) rfl (by decide) (by omega)
      have last (k : Nat × List Nat)
          (member : k ∈ if n - 123 - 128 = 0 then [] else
            (reach 2 (min (n - 123 - 128) 16384)).map fun path => (124,path)) :
          k.1 = 124 ∧ Key blocks height (· < 125) k.1 k.2 := by
        split at member
        · simp at member
        · obtain ⟨path,_,same⟩ := List.mem_map.mp member
          exact ⟨by rw [← same],double k member⟩
      have join (done : Bool) (u : Volume) (d' : Sector)
          (rest : Reserves reserved dirty height 125 (keys₂ ++ if n - 123 - 128 = 0 then [] else
            (reach 2 (min (n - 123 - 128) 16384)).map fun path => (124,path)) done t d₁ u d') :=
        Reserves.append sound held clean first rest
          (fun k member k' member' => by
            have before := low k member
            rcases List.mem_append.mp member' with here | there
            · have equal := index k' here
              omega
            · have equal := (last k' there).1
              omega)
          direct (fun k member => (List.mem_append.mp member).elim (single k) fun there => (last k there).2)
      cases found with
      | false => exact ⟨false,join false _ _ second.stopped,by simp⟩
      | true =>
        simp only [Bool.not_true,Bool.false_eq_true,if_false]
        by_cases enough₂ : n - 123 - 128 = 0
        · simp only [enough₂,if_true,List.append_nil] at join ⊢
          exact ⟨true,join true _ _ second,by simp; omega⟩
        · simp only [if_neg enough₂] at join last ⊢
          have held₂ (x : Nat) (taken : kept x) := second.allocated.mono x (held₁ x taken)
          have sound₂ := Sound.grow sound₁ second.grow held₁
          have third := reservePointer_spec isWrite within 124 2 (min (n - 123 - 128) 16384) (by decide) rfl (by decide)
            t₂ (d₁.setWord 123 entry) second.ready below held₂ sound₂ (by omega) (by omega)
          have same : (d₁.setWord 123 entry).word 124 = d₁.word 124 :=
            second.words 124 (by decide) fun k member => by rw [index k member]; decide
          rw [same,show d₁.word 124 = d₁.doublyIndirectBlock from rfl] at third
          refine ⟨((inodeReserveIndirect write 2 d₁.doublyIndirectBlock (min (n - 123 - 128) 16384)).exec t₂).1.1,
            join _ _ _ (Reserves.append sound₁ held₁ clean second third ?_ single (fun k member => (last k member).2)),?_⟩
          · intro k member k' member'
            rw [index k member,(last k' member').1]
            decide
          · have large : (n - 123 - 128 - 16384 == 0) = decide (n ≤ 16635) := by
              rw [Bool.eq_iff_iff,beq_iff_eq,decide_eq_true_eq]
              omega
            rw [large]

end
end MyShell.FS
