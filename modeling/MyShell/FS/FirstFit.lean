import MyShell.FS.Creation

/-! First fit on a free map whose free sectors are one run up to the end: `inode_reserve`
gives the blocks of a new inode the sectors of the run in the order it goes through them. -/
namespace MyShell.FS
open BlockProgram PointerForest Bitmap

/-- The free sectors are those from `m` on. -/
def FreeFrom (b : Bitmap) (m : Nat) : Prop := ∀ x < b.bitCnt, bitmapTest b x = decide (x < m)

/-- The targets of `keys` are the sectors from `m` on, one after the other, and those behind
them are the free ones. -/
structure FirstFit {κ : Type} (m : Nat) (keys : List κ) (target : κ → Nat) (t : Volume) : Prop where
  order : keys.map target = List.range' m keys.length
  front : FreeFrom t.vars.freeMap (m + keys.length)

section
variable {κ ι : Type} {keys keys' : List κ} {target target' : κ → Nat} {s t u : Volume} {m : Nat}

theorem FirstFit.nil (front : FreeFrom s.vars.freeMap m) (target : κ → Nat) : FirstFit m [] target s := ⟨rfl,front⟩

theorem FirstFit.append (first : FirstFit m keys target t) (second : FirstFit (m + keys.length) keys' target' u)
    (same : ∀ k ∈ keys, target' k = target k) : FirstFit m (keys ++ keys') target' u := by
  constructor
  · rw [List.map_append,List.map_congr_left same,first.order,second.order,List.length_append,List.range'_append_1]
  · rw [List.length_append,← Nat.add_assoc]
    exact second.front

theorem FirstFit.map {place : κ → ι} {target : ι → Nat} (fit : FirstFit m keys (fun k => target (place k)) t) :
    FirstFit m (keys.map place) target t := by
  constructor
  · rw [List.map_map,List.length_map]
    exact fit.order
  · rw [List.length_map]
    exact fit.front

theorem FirstFit.congr (fit : FirstFit m keys target t) (same : ∀ k ∈ keys, target' k = target k)
    (freeMap : u.vars.freeMap = t.vars.freeMap) : FirstFit m keys target' u :=
  ⟨(List.map_congr_left same).trans fit.order,freeMap ▸ fit.front⟩

theorem FirstFit.target_ge (fit : FirstFit m keys target t) (k : κ) (member : k ∈ keys) : m ≤ target k := by
  have inside := List.mem_map_of_mem (f := target) member
  rw [fit.order,List.mem_range'_1] at inside
  exact inside.1

/-- The place of a key among the keys tells its sector. -/
theorem FirstFit.target_eq (fit : FirstFit m keys target t) (i : Nat) (k : κ) (place : keys[i]? = some k) :
    target k = m + i := by
  obtain ⟨inside,rfl⟩ := List.getElem?_eq_some_iff.mp place
  have here : (keys.map target)[i]? = some (target keys[i]) := by rw [List.getElem?_map,place,Option.map_some]
  rw [fit.order,List.getElem?_range' inside,Nat.one_mul] at here
  exact (Option.some.inj here).symm

end

section
variable {reserved dirty kept : Nat → Prop} {s t u : Volume} {write : Writer} {m x : Nat}

theorem FreeFrom.positive (front : FreeFrom s.vars.freeMap m) (ready : Ready reserved dirty s) : 0 < m := by
  have taken := front 0 ready.positive
  rw [ready.origin] at taken
  exact of_decide_eq_true taken.symm

/-- A sector is allocated where the scan found it. -/
theorem allocate_scan (run : (freeMapAllocate write 1).exec s = (some x,t)) :
    bitmapScan s.vars.freeMap 0 1 false = some x := by
  cases found : bitmapScan s.vars.freeMap 0 1 false with
  | none =>
    rw [allocate_full write s found] at run
    exact absurd (congrArg Prod.fst run).symm (Option.some_ne_none _)
  | some y =>
    unfold freeMapAllocate bitmapScanAndFlip at run
    simp only [Task.exec_bind,Task.exec_get,found,Task.exec_set,Task.exec_ite] at run
    split at run
    · exact (congrArg Prod.fst run)
    · exact absurd (congrArg Prod.fst run).symm (Option.some_ne_none _)

/-- `free_map_allocate` takes the front of the run. -/
theorem allocate_first (ready : Ready reserved dirty s) (isWrite : IsWrite write) (front : FreeFrom s.vars.freeMap m)
    (run : (freeMapAllocate write 1).exec s = (some x,t)) : x = m ∧ FreeFrom t.vars.freeMap (m+1) := by
  have found := allocate_scan run
  obtain ⟨inside,clear⟩ := scan_some _ _ found
  have low : m ≤ x := by
    rw [front x inside,decide_eq_false_iff_not] at clear
    exact Nat.le_of_not_lt clear
  have same : x = m := by
    by_contra other
    have before := scan_first _ _ found m (by omega)
    rw [front m (by omega),decide_eq_true_iff] at before
    exact Nat.lt_irrefl m before
  subst same
  rcases allocate_spec ready isWrite with ⟨y,mem,step,-⟩ | full
  · rw [step] at run
    obtain ⟨sector,state⟩ := Prod.mk.inj run
    obtain rfl := Option.some.inj sector
    rw [← state]
    refine ⟨rfl,fun z below => ?_⟩
    dsimp only at below ⊢
    rw [set_bitCnt] at below
    rw [test_set _ ready.packed.length _ _ _ inside,front z below]
    split <;> simp <;> omega
  · rw [full] at found
    exact absurd found.symm (Option.some_ne_none _)

/-- The loop over the entries of a block that are all null. -/
theorem reserveEntries_order {depth unit entries : Nat} {level : Nat → Nat} (reserve : Nat → Nat → FsM (Bool × Nat))
    (positive : 0 < unit) (low : depth ≤ 2) (fits : unit ≤ 128 ^ depth)
    (tree : ∀ (s : Volume) (entry n : Nat), Ready reserved dirty s → (∀ x, kept x → bitmapTest s.vars.freeMap x = true) →
      Sound blocks (fun _ : Unit => depth) (fun _ => True) kept (arena s) (fun _ => entry) → 0 < n → n ≤ 128 ^ depth →
      ReservesTree reserved dirty depth (reach depth n) ((reserve entry n).exec s).1.1 s entry
        ((reserve entry n).exec s).2 ((reserve entry n).exec s).1.2)
    (order : ∀ (s : Volume) (entry n m : Nat), Ready reserved dirty s → entry = 0 → 0 < n → n ≤ 128 ^ depth →
      FreeFrom s.vars.freeMap m → ((reserve entry n).exec s).1.1 = true →
      FirstFit m (reach depth n) (node blocks ((reserve entry n).exec s).2.device ((reserve entry n).exec s).1.2)
        ((reserve entry n).exec s).2)
    (within : ∀ x, dirty x → kept x) (small : entries ≤ 128) (count i n : Nat) (s : Volume) (block : Sector)
    (ready : Ready reserved dirty s) (held : ∀ x, kept x → bitmapTest s.vars.freeMap x = true)
    (sound : Sound blocks level (· < entries) kept (arena s) block.word) (room : i + count ≤ entries)
    (even : ∀ j, i ≤ j → j < i + count → level j = depth) (covers : ∀ c < count, c * unit < n)
    (null : ∀ j, i ≤ j → j < i + count → block.word j = 0) (front : FreeFrom s.vars.freeMap m)
    (done : ((reserveEntries reserve unit count i n block).exec s).1.1 = true) :
    FirstFit m (reachEntries (reach depth) unit count i n)
      (fun k => node blocks ((reserveEntries reserve unit count i n block).exec s).2.device
        (((reserveEntries reserve unit count i n block).exec s).1.2.word k.1) k.2)
      ((reserveEntries reserve unit count i n block).exec s).2 := by
  induction count generalizing i n s block m with
  | zero => exact FirstFit.nil front _
  | succ count ih =>
    have some : 0 < n := by simpa using covers 0 (by omega)
    have here : level i = depth := even i (Nat.le_refl _) (by omega)
    have run := tree s (block.word i) (min n unit) ready held (here ▸ sound.tree i (by omega)) (by omega)
      ((Nat.min_le_right _ _).trans fits)
    have nonempty : reach depth (min n unit) ≠ [] := by cases depth <;> simp [reach]
    have first := run.entry here sound within (by omega) small nonempty
    have fit := order s (block.word i) (min n unit) m ready (null i (Nat.le_refl _) (by omega)) (by omega)
      ((Nat.min_le_right _ _).trans fits) front
    have bound := run.entry_lt
    simp only [reserveEntries,Task.exec_bind,Task.exec_ite,Task.exec_pure] at done ⊢
    generalize (reserve (block.word i) (min n unit)).exec s = outcome at first fit bound done ⊢
    obtain ⟨⟨found,entry⟩,t⟩ := outcome
    cases found with
    | false => exact absurd done Bool.false_ne_true
    | true =>
      simp only [if_true] at done ⊢
      have word (j : Nat) (below : j < 128) := Sector.word_setWord block i entry j below bound
      have marks (x : Nat) (taken : kept x) : bitmapTest t.vars.freeMap x = true := first.allocated.mono x (held x taken)
      have sound' := sound.grow first.grow held
      have covers' (c : Nat) (before : c < count) : c * unit < n - min n unit := by
        have next := covers (c+1) (by omega)
        rw [Nat.succ_mul] at next
        omega
      have rest := reserveEntries_spec reserve positive low fits tree within small count (i+1) (n - min n unit) t
        (block.setWord i entry) first.ready marks sound' (by omega) (fun j after before => even j (by omega) (by omega))
        covers'
      have here : FirstFit m ((reach depth (min n unit)).map fun path => (i,path))
          (fun k => node blocks t.device ((block.setWord i entry).word k.1) k.2) t := by
        refine FirstFit.map ((fit rfl).congr (fun path _ => ?_) rfl)
        rw [word i (by omega),if_pos rfl]
      have later := ih (i+1) (n - min n unit) t (block.setWord i entry) first.ready marks sound' (by omega)
        (fun j after before => even j (by omega) (by omega)) covers' (fun j after before => by
          rw [word j (by omega),if_neg (by omega)]
          exact null j (by omega) (by omega)) here.front done
      refine here.append later fun k member => ?_
      have key := reachEntries_key depth unit (count+1) i n entries level low fits room even k
        (List.mem_append_left _ member)
      exact rest.grow.kept k.1 k.2 key (first.cover rfl k member)

/-- A new block of pointers, the entries of which are filled and written back. -/
theorem reserveBlock_order {level n x : Nat} (isWrite : IsWrite write) (within : ∀ y, dirty y → reserved y)
    (low : level ≤ 1) (order : ∀ (s : Volume) (entry n m : Nat), Ready reserved dirty s → entry = 0 → 0 < n →
      n ≤ 128 ^ level → FreeFrom s.vars.freeMap m → ((inodeReserveIndirect write level entry n).exec s).1.1 = true →
      FirstFit m (reach level n) (node blocks ((inodeReserveIndirect write level entry n).exec s).2.device
          ((inodeReserveIndirect write level entry n).exec s).1.2)
        ((inodeReserveIndirect write level entry n).exec s).2)
    (ready : Ready reserved dirty s) (present : x ≠ 0) (blank : s.device x = Sector.zeros)
    (sound : Sound blocks (fun _ : Unit => level + 1) (fun _ => True) reserved (arena s) (fun _ => x))
    (bound : n ≤ 128 ^ (level+1)) (front : FreeFrom s.vars.freeMap m)
    (done : ((inodeReserveIndirect write (level+1) x n).exec s).1.1 = true) :
    FirstFit m (reachEntries (reach level) (128 ^ level) ((n + 128 ^ level - 1) / 128 ^ level) 0 n)
        (fun k => node blocks ((inodeReserveIndirect write (level+1) x n).exec s).2.device
          ((inodeReserveIndirect write (level+1) x n).exec s).1.2 (k.1 :: k.2))
        ((inodeReserveIndirect write (level+1) x n).exec s).2 ∧
      ((inodeReserveIndirect write (level+1) x n).exec s).1.2 = x := by
  have unit := entryUnit_eq level low
  have positive : 0 < 128 ^ level := Nat.pow_pos (by decide)
  have top : Key blocks (fun _ : Unit => level + 1) (fun _ => True) () [] := ⟨trivial,by simp,by simp⟩
  have own : bitmapTest s.vars.freeMap x = true := sound.marked () [] top present
  have held (y : Nat) (taken : reserved y ∨ y = x) : bitmapTest s.vars.freeMap y = true :=
    taken.elim (ready.held y) fun same => same ▸ own
  have tree (t : Volume) (e m : Nat) (ready : Ready reserved dirty t)
      (held : ∀ y, reserved y ∨ y = x → bitmapTest t.vars.freeMap y = true) :=
    reserveIndirect_spec isWrite within level (by omega) (fun y => reserved y ∨ y = x) t e m ready
      (fun y taken => Or.inl taken) held
  have room : 0 + (n + 128 ^ level - 1) / 128 ^ level ≤ 128 := by simpa using unit_count level n bound
  have covers := fun c => unit_passes (128 ^ level) n c positive
  have filled := reserveEntries_spec (inodeReserveIndirect write level) positive (by omega : level ≤ 2) (Nat.le_refl _) tree
    (fun y stained => Or.inl (within y stained)) (Nat.le_refl 128) ((n + 128 ^ level - 1) / 128 ^ level) 0 n s
    (s.device x) ready held (sound.children present) room (fun _ _ _ => rfl) covers
  have fit := reserveEntries_order (inodeReserveIndirect write level) positive (by omega : level ≤ 2) (Nat.le_refl _) tree
    order (fun y stained => Or.inl (within y stained)) (Nat.le_refl 128) ((n + 128 ^ level - 1) / 128 ^ level) 0 n s
    (s.device x) ready held (sound.children present) room (fun _ _ _ => rfl) covers
    (fun j _ _ => by rw [blank,Sector.word_zeros]) front
  simp only [inodeReserveIndirect,present,if_false,Task.exec_bind,Task.exec_pure,exec_bufferRead,Task.exec_ite,
    exec_bufferWrite,unit] at done ⊢
  generalize (reserveEntries (inodeReserveIndirect write level) (128 ^ level) ((n + 128 ^ level - 1) / 128 ^ level) 0 n
    (s.device x)).exec s = outcome at filled fit done ⊢
  obtain ⟨⟨found,block⟩,t⟩ := outcome
  cases found with
  | false => exact absurd done Bool.false_ne_true
  | true =>
    simp only [if_true]
    refine ⟨(fit rfl).congr (fun k member => ?_) rfl,trivial⟩
    have key := reachEntries_key level (128 ^ level) _ 0 n 128 (fun _ => level) (by omega) (Nat.le_refl _) room
      (fun _ _ _ => rfl) k member
    have after := (sound.children present).grow filled.grow held
    rw [node_cons _ _ _ _ _ present]
    change node blocks (Function.update t.device x block) ((Function.update t.device x block x).word k.1) k.2 = _
    rw [Function.update_self]
    exact after.node_eq _ k.1 k.2 key fun y _ apart _ _ =>
      Function.update_of_ne (fun same : y = x => apart (Or.inr same)) _ _

theorem sound_null {level : Nat} (a : PointerForest.Arena Sector) :
    Sound blocks (fun _ : Unit => level) (fun _ => True) reserved a (fun _ => 0) := by
  refine ⟨fun _ path _ present => ?_,fun _ path _ present => ?_,fun _ p _ q _ _ present => ?_⟩
  all_goals exact absurd (node_null blocks _ _) present

/-- `inode_reserve_indirect` for an entry that is null. -/
theorem reserveIndirect_order (isWrite : IsWrite write) (within : ∀ y, dirty y → reserved y) (level : Nat)
    (low : level ≤ 2) (s : Volume) (entry n m : Nat) (ready : Ready reserved dirty s) (null : entry = 0) (some : 0 < n)
    (bound : n ≤ 128 ^ level) (front : FreeFrom s.vars.freeMap m)
    (done : ((inodeReserveIndirect write level entry n).exec s).1.1 = true) :
    FirstFit m (reach level n) (node blocks ((inodeReserveIndirect write level entry n).exec s).2.device
        ((inodeReserveIndirect write level entry n).exec s).1.2)
      ((inodeReserveIndirect write level entry n).exec s).2 := by
  subst null
  induction level generalizing s n m with
  | zero =>
    simp only [inodeReserveIndirect,if_true,Task.exec_bind] at done ⊢
    generalize run : (freeMapAllocate write 1).exec s = outcome at done ⊢
    obtain ⟨found,t⟩ := outcome
    cases found with
    | none => exact absurd done Bool.false_ne_true
    | some x =>
      obtain ⟨rfl,rest⟩ := allocate_first ready isWrite front run
      exact ⟨rfl,rest⟩
  | succ level ih =>
    rcases allocate_spec ready isWrite with ⟨x,mem,run,-⟩ | full
    · obtain ⟨present,-,grow,after,-⟩ := @allocateBlank_spec _ _ true _ _ ready isWrite (level+1) x _ run
      obtain ⟨rfl,rest⟩ := allocate_first ready isWrite front run
      have same : (inodeReserveIndirect write (level+1) 0 n).exec s = (inodeReserveIndirect write (level+1) x n).exec
          ⟨{s.vars with
            freeMap := bitmapSet s.vars.freeMap x true
            allocations := s.vars.allocations ++ [Option.some x]},Function.update mem x Sector.zeros⟩ := by
        simp only [inodeReserveIndirect,if_true,if_neg present,reserveBlock,Task.exec_bind,run,exec_bufferWrite,
          Option.getD_some,Task.exec_pure]
      rw [same] at done ⊢
      obtain ⟨below,entry⟩ := reserveBlock_order isWrite within (by omega) (fun s e n m ready null some bound front done => by
        subst null
        exact ih (by omega) s n m ready some bound front done) after present (Function.update_self _ _ _)
        ((sound_null _).grow grow ready.held) bound rest done
      rw [reach,entryUnit_eq level (by omega)]
      constructor
      · rw [List.map_cons,List.map_map,List.length_cons,List.length_map,List.range'_succ]
        exact congrArg₂ List.cons entry below.order
      · rw [List.length_cons,List.length_map,← Nat.add_assoc,Nat.add_right_comm x]
        exact below.front
    · obtain ⟨new,mem,run,-⟩ := reserveIndirect_full write (level+1) n some s full
      rw [run] at done
      exact absurd done Bool.false_ne_true

/-- The same below a single pointer of an inode. -/
theorem reservePointer_order (isWrite : IsWrite write) (within : ∀ y, dirty y → reserved y) (pointer depth n : Nat)
    (inside : pointer < 125) (tall : height pointer = depth) (low : depth ≤ 2) (d : Sector)
    (ready : Ready reserved dirty s) (sound : SoundMap reserved (arena s) d) (null : d.word pointer = 0) (some : 0 < n)
    (bound : n ≤ 128 ^ depth) (front : FreeFrom s.vars.freeMap m)
    (done : ((inodeReserveIndirect write depth (d.word pointer) n).exec s).1.1 = true) :
    FirstFit m ((reach depth n).map fun path => (pointer,path))
      (fun k => node blocks ((inodeReserveIndirect write depth (d.word pointer) n).exec s).2.device
        ((d.setWord pointer ((inodeReserveIndirect write depth (d.word pointer) n).exec s).1.2).word k.1) k.2)
      ((inodeReserveIndirect write depth (d.word pointer) n).exec s).2 := by
  have run := reserveIndirect_spec isWrite within depth low reserved s (d.word pointer) n ready (fun _ taken => taken)
    ready.held (tall ▸ Sound.tree sound pointer inside) some bound
  have fit := reserveIndirect_order isWrite within depth low s (d.word pointer) n m ready null some bound front done
  refine FirstFit.map (fit.congr (fun path _ => ?_) rfl)
  rw [Sector.word_setWord d pointer _ pointer (by omega) run.entry_lt,if_pos rfl]

/-- `inode_reserve` for an inode without blocks. -/
theorem inodeReserve_order (isWrite : IsWrite write) (within : ∀ y, dirty y → reserved y) (d : Sector) (length : Int)
    (ready : Ready reserved dirty s) (sound : SoundMap reserved (arena s) d) (natural : 0 ≤ length)
    (null : ∀ j < 125, d.word j = 0) (front : FreeFrom s.vars.freeMap m)
    (done : ((inodeReserve write d length).exec s).1.1 = true) :
    FirstFit m (inodeReach (bytesToSectors length))
      (fun k => node blocks ((inodeReserve write d length).exec s).2.device
        (((inodeReserve write d length).exec s).1.2.word k.1) k.2) ((inodeReserve write d length).exec s).2 := by
  simp only [inodeReserve,if_neg (Int.not_lt.mpr natural),inodeReach] at done ⊢
  generalize bytesToSectors length = n at done ⊢
  have tree (t : Volume) (e c : Nat) (ready : Ready reserved dirty t)
      (held : ∀ y, reserved y → bitmapTest t.vars.freeMap y = true) :=
    reserveIndirect_spec isWrite within 0 (by decide) reserved t e c ready (fun _ taken => taken) held
  have first := reserveEntries_spec (inodeReserveIndirect write 0) (by decide : 0 < 1) (by decide : 0 ≤ 2) (by decide) tree
    within (by decide) (min n 123) 0 (min n 123) s d ready ready.held sound (by omega) (fun j _ before => if_pos (by omega))
    (fun c before => by omega)
  have fit := reserveEntries_order (inodeReserveIndirect write 0) (by decide : 0 < 1) (by decide : 0 ≤ 2) (by decide) tree
    (reserveIndirect_order isWrite within 0 (by decide)) within (by decide) (min n 123) 0 (min n 123) s d ready ready.held
    sound (by omega) (fun j _ before => if_pos (by omega)) (fun c before => by omega) (fun j _ _ => null j (by omega)) front
  have direct := direct_key n
  have low (k : Nat × List Nat) (member : k ∈ reachEntries (reach 0) 1 (min n 123) 0 (min n 123)) : k.1 < 123 := by
    have bound := (mem_reachEntries _ _ _ _ _ k member).2.1
    omega
  generalize reachEntries (reach 0) 1 (min n 123) 0 (min n 123) = keys₁ at first fit direct low ⊢
  simp only [Task.exec_bind,Task.exec_ite,Task.exec_pure] at done ⊢
  generalize (reserveEntries (inodeReserveIndirect write 0) 1 (min n 123) 0 (min n 123) d).exec s = outcome at first fit done ⊢
  obtain ⟨⟨found,d₁⟩,t⟩ := outcome
  cases found with
  | false => exact absurd done Bool.false_ne_true
  | true =>
    simp only [Bool.not_true,Bool.false_eq_true,if_false] at done ⊢
    have fit₁ := fit rfl
    have null₁ (j : Nat) (high : 123 ≤ j) (inside : j < 125) : d₁.word j = 0 :=
      (first.words j (by omega) fun k member => by have := low k member; omega).trans (null j inside)
    by_cases few : n - 123 = 0
    · simp only [few,if_true,Nat.zero_sub,List.append_nil]
      exact fit₁
    · simp only [if_neg few] at done ⊢
      have sound₁ := Sound.grow sound first.grow ready.held
      have second := reservePointer_spec isWrite within 123 1 (min (n - 123) 128) (by decide) rfl (by decide) t d₁
        first.ready (fun _ taken => taken) first.ready.held sound₁ (by omega) (by omega)
      have fit₂ := reservePointer_order isWrite within 123 1 (min (n - 123) 128) (by decide) rfl (by decide) d₁ first.ready
        sound₁ (null₁ 123 (by decide) (by decide)) (by omega) (by omega) fit₁.front
      have single := pointer_key 123 1 (min (n - 123) 128) (by decide) rfl (by decide) (by omega)
      have index (k : Nat × List Nat) (member : k ∈ (reach 1 (min (n - 123) 128)).map fun path => (123,path)) :
          k.1 = 123 := by
        obtain ⟨path,-,rfl⟩ := List.mem_map.mp member
        rfl
      generalize (reach 1 (min (n - 123) 128)).map (fun path => (123,path)) = keys₂ at second fit₂ single index ⊢
      rw [show d₁.word 123 = d₁.indirectBlock from rfl] at second fit₂
      generalize (inodeReserveIndirect write 1 d₁.indirectBlock (min (n - 123) 128)).exec t = outcome at second fit₂ done ⊢
      obtain ⟨⟨found,entry⟩,t₂⟩ := outcome
      cases found with
      | false => exact absurd done Bool.false_ne_true
      | true =>
        simp only [Bool.not_true,Bool.false_eq_true,if_false] at done ⊢
        have fit₂ := fit₂ rfl
        have kept (k : Nat × List Nat) (member : k ∈ keys₁) :=
          second.grow.kept k.1 k.2 (direct k member) (first.cover rfl k member)
        by_cases few : n - 123 - 128 = 0
        · simp only [few,if_true,List.append_nil]
          exact fit₁.append fit₂ kept
        · simp only [if_neg few] at done ⊢
          have sound₂ := Sound.grow sound₁ second.grow first.ready.held
          have null₂ : (d₁.setWord 123 entry).word 124 = 0 :=
            (second.words 124 (by decide) fun k member => by rw [index k member]; decide).trans
              (null₁ 124 (by decide) (by decide))
          have third := reservePointer_spec isWrite within 124 2 (min (n - 123 - 128) 16384) (by decide) rfl (by decide)
            t₂ (d₁.setWord 123 entry) second.ready (fun _ taken => taken) second.ready.held sound₂ (by omega) (by omega)
          have fit₃ := reservePointer_order isWrite within 124 2 (min (n - 123 - 128) 16384) (by decide) rfl (by decide)
            (d₁.setWord 123 entry) second.ready sound₂ null₂ (by omega) (by omega) fit₂.front
          have same : (d₁.setWord 123 entry).word 124 = d₁.word 124 :=
            second.words 124 (by decide) fun k member => by rw [index k member]; decide
          rw [same,show d₁.word 124 = d₁.doublyIndirectBlock from rfl] at third fit₃
          generalize (inodeReserveIndirect write 2 d₁.doublyIndirectBlock (min (n - 123 - 128) 16384)).exec t₂ = outcome
            at third fit₃ done ⊢
          obtain ⟨⟨found,entry₂⟩,u⟩ := outcome
          have fit₃ := fit₃ (Bool.and_eq_true_iff.mp done).1
          refine fit₁.append (fit₂.append fit₃ fun k member => ?_) fun k member => ?_
          · exact third.grow.kept k.1 k.2 (single k member) (second.cover rfl k member)
          · have there := kept k member
            refine (third.grow.kept k.1 k.2 (direct k member) ?_).trans there
            exact there.trans_ne (first.cover rfl k member)

end

/-- The place of a data block among all blocks of a file: the blocks of pointers above it
come first. -/
def dataPlace (k : Nat) : Nat := if k < 123 then k else if k < 251 then k + 1 else k + 3 + (k - 251) / 128

/-- Where the block map goes over to another block of pointers, one or two of them lie in between. -/
theorem dataPlace_step (k : Nat) : dataPlace k < dataPlace (k+1) ∧ dataPlace (k+1) ≤ dataPlace k + 3 := by
  unfold dataPlace
  repeat' split
  all_goals omega

theorem reachEntries_leaves (count i n : Nat) :
    reachEntries (reach 0) 1 count i n = (List.range' i count).map fun j => (j,[]) := by
  induction count generalizing i n with
  | zero => rfl
  | succ count ih =>
    rw [reachEntries,ih,List.range'_succ]
    rfl

theorem reach_one_eq (n : Nat) : reach 1 n = [] :: (List.range' 0 n).map fun j => [j] := by
  rw [reach,show entryUnit (0+1) = 1 from rfl,Nat.add_sub_cancel,Nat.div_one,reachEntries_leaves,List.map_map]
  rfl

theorem reach_one_place (n j : Nat) (inside : j < n) : (reach 1 n)[j+1]? = some [j] := by
  rw [reach_one_eq,List.getElem?_cons_succ,List.getElem?_map,List.getElem?_range' inside,Nat.zero_add,Nat.one_mul]
  rfl

/-- Every second-level block but the last has 128 data blocks behind it. -/
theorem reachEntries_place (count i n q r : Nat) (pass : q < count) (small : r < 128) (inside : 128*q + r < n) :
    (reachEntries (reach 1) 128 count i n)[129*q + r + 1]? = some (i+q,[r]) := by
  induction count generalizing i n q with
  | zero => omega
  | succ count ih =>
    have length : ((reach 1 (min n 128)).map fun path => (i,path)).length = min n 128 + 1 := by
      rw [List.length_map,reach_one_eq,List.length_cons,List.length_map,List.length_range']
    rw [reachEntries]
    cases q with
    | zero =>
      rw [List.getElem?_append_left (by omega),List.getElem?_map,Nat.mul_zero,Nat.zero_add,
        reach_one_place _ r (by omega)]
      rfl
    | succ q =>
      have full : min n 128 = 128 := by omega
      rw [List.getElem?_append_right (by omega),length,full,show 129*(q+1) + r + 1 - (128+1) = 129*q + r + 1 by omega,
        ih (i+1) (n - 128) q (by omega) (by omega)]
      exact congrArg some (Prod.ext (by dsimp only; omega) rfl)

theorem inodeReach_place (n k : Nat) (inside : k < n) (limit : k < 16635) :
    (inodeReach n)[dataPlace k]? = some (dataPath k) := by
  have direct : (reachEntries (reach 0) 1 (min n 123) 0 (min n 123)).length = min n 123 := by
    rw [reachEntries_leaves,List.length_map,List.length_range']
  unfold inodeReach dataPlace dataPath
  by_cases low : k < 123
  · rw [if_pos low,if_pos low,List.getElem?_append_left (by omega),reachEntries_leaves,List.getElem?_map,
      List.getElem?_range' (by omega),Nat.zero_add,Nat.one_mul]
    rfl
  · have single : ((reach 1 (min (n - 123) 128)).map fun path => (123,path)).length = min (n - 123) 128 + 1 := by
      rw [List.length_map,reach_one_eq,List.length_cons,List.length_map,List.length_range']
    rw [if_neg low,if_neg low,if_neg (show n - 123 ≠ 0 by omega)]
    by_cases middle : k < 251
    · rw [if_pos middle,if_pos middle,List.getElem?_append_right (by omega),direct,
        List.getElem?_append_left (by omega),List.getElem?_map,show k + 1 - min n 123 = k - 123 + 1 by omega,
        reach_one_place _ _ (by omega)]
      rfl
    · rw [if_neg middle,if_neg middle,if_neg (show n - 123 - 128 ≠ 0 by omega),List.getElem?_append_right (by omega),direct,
        List.getElem?_append_right (by omega),single,List.getElem?_map,reach,show entryUnit (1+1) = 128 from rfl,
        show k + 3 + (k - 251) / 128 - min n 123 - (min (n - 123) 128 + 1) =
          129 * ((k - 251) / 128) + (k - 251) % 128 + 1 + 1 by omega,
        List.getElem?_cons_succ,List.getElem?_map,
        reachEntries_place _ 0 _ ((k - 251) / 128) ((k - 251) % 128) (by omega) (by omega) (by omega)]
      simp

section
variable {reserved dirty : Nat → Prop} {s t : Volume} {m x : Nat}

/-- The blocks of the file at `x`, in order, are the sectors from `m` on. -/
def BlocksFrom (t : Volume) (x m : Nat) (length : Int) : Prop :=
  FirstFit m (inodeReach (bytesToSectors length)) (fun k => node blocks t.device ((t.device x).word k.1) k.2) t

/-- Marks of which as many sectors are clear are the same marks. -/
theorem FreeFrom.marks {done : Bool} (front : FreeFrom s.vars.freeMap m) (packed : t.vars.freeMap.Packed)
    (marks : Marks s t done) (count : t.vars.freeMap.clearCount = s.vars.freeMap.clearCount) :
    FreeFrom t.vars.freeMap m := by
  intro y below
  rw [marks.size] at below
  rw [← front y below]
  cases clear : bitmapTest s.vars.freeMap y with
  | true => exact marks.mono y clear
  | false =>
    cases set : bitmapTest t.vars.freeMap y with
    | false => rfl
    | true =>
      have new := mem_of_newBits marks.size marks.mono (fun z used => by
        by_contra beyond
        rw [packed.unused z (Nat.le_of_not_lt beyond)] at used
        exact Bool.false_ne_true used) List.nodup_nil (fun z member => absurd member List.not_mem_nil) count y clear set
      exact absurd new List.not_mem_nil

/-- `inode_create` on a sector that is marked. -/
theorem inodeCreate_order (ready : Ready reserved dirty s) (marked : bitmapTest s.vars.freeMap x = true) (length : Int)
    (isDir : Bool) (natural : 0 ≤ length) (bound : length < 2147483648) (front : FreeFrom s.vars.freeMap m)
    (run : (inodeCreate x length isDir).exec s = (true,t)) : BlocksFrom t x m length := by
  have held (y : Nat) (taken : reserved y ∨ y = x) : bitmapTest s.vars.freeMap y = true :=
    taken.elim (ready.held y) fun same => same ▸ marked
  have empty := newInodeDisk_sound length isDir (fun y => reserved y ∨ y = x) (arena s)
  have total := length_newInodeDisk length isDir (by omega) bound
  obtain ⟨done,reserves,-⟩ := inodeReserve_spec isWrite_inodeWriteAt ready.within s (newInodeDisk length isDir) length ready
    (fun _ taken => Or.inl taken) held empty natural
  have fit := inodeReserve_order isWrite_inodeWriteAt ready.within (newInodeDisk length isDir) length ready
    (newInodeDisk_sound length isDir reserved (arena s)) natural (newInodeDisk_blank length isDir) front
  rw [exec_inodeCreate length isDir x s (by omega) bound] at run
  generalize (inodeReserve inodeWriteAt (newInodeDisk length isDir) length).exec s = outcome at reserves fit run
  obtain ⟨⟨found,d⟩,u⟩ := outcome
  cases found with
  | false => exact absurd (congrArg Prod.fst run) Bool.false_ne_true
  | true =>
    have state := congrArg Prod.snd run
    simp only [if_true] at state
    subst state
    have after := empty.grow reserves.grow held
    refine (fit rfl).congr (fun k member => ?_) rfl
    dsimp only
    rw [Function.update_self]
    exact after.node_eq _ k.1 k.2 (inodeReach_key _ k member) fun y _ apart _ _ =>
      Function.update_of_ne (fun same : y = x => apart (Or.inr same)) _ _

end

end MyShell.FS
