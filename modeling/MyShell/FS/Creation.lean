import MyShell.FS.Contents

/-! `inode_create` in a layout: the new inode joins it with a file of zeros, or the
layout stays as it was. -/
namespace MyShell.FS
open BlockProgram PointerForest Bitmap

section
variable {reserved dirty owner : Nat → Prop} {img : Nat → Sector} {s t : Volume} {x : Nat}

/-- Fewer inodes, and other marks for everything else. -/
theorem Layout.remark {fewer : Nat → Prop} (layout : Layout reserved owner img s) (sub : ∀ z, fewer z → owner z)
    (device : t.device = s.device) (inodes : ∀ z, fewer z → bitmapTest t.vars.freeMap z = true)
    (nodes : ∀ z pointer path, fewer z → Key blocks height isPointer pointer path →
      node blocks s.device ((img z).word pointer) path ≠ 0 →
      bitmapTest t.vars.freeMap (node blocks s.device ((img z).word pointer) path) = true) :
    Layout reserved fewer img t := by
  refine ⟨?_,inodes,fun z member => layout.free z (sub z member),fun z member => layout.natural z (sub z member),
    fun z member => layout.limit z (sub z member),?_,?_⟩
  · have part : Sound blocks (fun k : Nat × Nat => height k.2) (isPointerOf fewer) (fun y => reserved y ∨ owner y)
        (arena t) (pointers img) := by
      refine layout.forest.restrict (arena t) device (fun k inside => ⟨sub k.1 inside.1,inside.2⟩) ?_
      intro k path key present
      exact nodes k.1 k.2 path key.dom.1 ⟨key.dom.2,key.short,key.inside⟩ present
    refine part.extend (fun _ _ => rfl) (fun _ inside => Or.inl inside) ?_
    rintro k path key present (taken | inode)
    · exact part.apart k path key present (Or.inl taken)
    · exact part.apart k path key present (Or.inr (sub _ inode))
  · rw [device]
    exact fun z member => layout.complete z (sub z member)
  · rw [device]
    exact fun z member => layout.slack z (sub z member)

/-- Only the images of the inodes in the layout matter. -/
theorem Layout.image {img' : Nat → Sector} (layout : Layout reserved owner img s)
    (same : ∀ z, owner z → img' z = img z) : Layout reserved owner img' s := by
  refine ⟨?_,layout.marked,layout.free,fun z owns => ?_,fun z owns => ?_,fun z owns => ?_,fun z owns => ?_⟩
  · refine layout.forest.congr_root fun k inside => ?_
    simp only [pointers,same k.1 inside.1]
  all_goals rw [same z owns]
  · exact layout.natural z owns
  · exact layout.limit z owns
  · exact layout.complete z owns
  · exact layout.slack z owns

/-- A sector that belongs to nobody in the layout. -/
structure Unowned (reserved owner : Nat → Prop) (img : Nat → Sector) (s : Volume) (x : Nat) : Prop where
  free : ¬reserved x
  other : ¬owner x
  apart : ∀ z pointer path, owner z → Key blocks height isPointer pointer path →
    node blocks s.device ((img z).word pointer) path ≠ 0 → node blocks s.device ((img z).word pointer) path ≠ x

/-- What the free map has as free is owned by nobody. -/
theorem Layout.unowned (layout : Layout reserved owner img s) (ready : Ready reserved dirty s)
    (clear : bitmapTest s.vars.freeMap x = false) : Unowned reserved owner img s x := by
  refine ⟨fun taken => ?_,fun inode => ?_,fun z pointer path owns key present same => ?_⟩
  · exact Bool.false_ne_true (clear.symm.trans (ready.held x taken))
  · exact Bool.false_ne_true (clear.symm.trans (layout.marked x inode))
  · have marked := layout.forest.marked (z,pointer) path ((inodePart owns).key _ _ key) present
    change bitmapTest s.vars.freeMap (node blocks s.device ((img z).word pointer) path) = true at marked
    rw [same,clear] at marked
    exact Bool.false_ne_true marked

/-- An empty inode joins the layout. -/
theorem Layout.insert {d : Sector} (layout : Layout reserved owner img s) (unowned : Unowned reserved owner img s x)
    (marked : bitmapTest s.vars.freeMap x = true) (blank : ∀ j < 125, d.word j = 0) (empty : d.length = 0) :
    Layout reserved (fun z => owner z ∨ z = x) (Function.update img x d) s := by
  have old (z : Nat) (owns : owner z) : Function.update img x d z = img z :=
    Function.update_of_ne (fun same : z = x => unowned.other (same ▸ owns)) _ _
  have null (pointer : Nat) (path : List Nat) (low : pointer < 125) :
      node blocks s.device ((Function.update img x d x).word pointer) path = 0 := by
    rw [Function.update_self,blank pointer low,node_null]
  refine ⟨?_,?_,?_,?_,?_,?_,?_⟩
  · refine layout.forest.extend (fun k inside => ?_) (fun k inside => ?_) ?_
    · simp only [pointers,old k.1 inside.1]
    · rcases inside.1 with owns | same
      · exact Or.inl ⟨owns,inside.2⟩
      · right
        simp only [pointers,same,Function.update_self]
        exact blank _ inside.2
    · rintro k path key present (taken | owns | same)
      · exact layout.forest.apart k path key present (Or.inl taken)
      · exact layout.forest.apart k path key present (Or.inr owns)
      · exact unowned.apart k.1 k.2 path key.dom.1 ⟨key.dom.2,key.short,key.inside⟩ present same
  · rintro z (owns | rfl)
    · exact layout.marked z owns
    · exact marked
  · rintro z (owns | rfl)
    · exact layout.free z owns
    · exact unowned.free
  · rintro z (owns | rfl)
    · rw [old z owns]
      exact layout.natural z owns
    · have none : (Function.update img z d z).length = 0 := by rw [Function.update_self,empty]
      exact Int.le_of_eq none.symm
  · rintro z (owns | rfl)
    · rw [old z owns]
      exact layout.limit z owns
    · rw [Function.update_self,empty]
      decide
  · rintro z (owns | rfl) k member
    · rw [old z owns] at member ⊢
      exact layout.complete z owns k member
    · rw [Function.update_self,empty] at member
      exact absurd member List.not_mem_nil
  · rintro z (owns | rfl) i inside past present
    · rw [old z owns] at past present ⊢
      exact layout.slack z owns i inside past present
    · exact absurd (null _ _ (dataPath_key (i / 512) (by omega)).1.dom) present

/-- Writes to dirty blocks only. -/
theorem Layout.dirtied (layout : Layout reserved owner img s) (within : ∀ y, dirty y → reserved y) (mem : Nat → Sector)
    (clean : ∀ y, ¬dirty y → mem y = s.device y) :
    Layout reserved owner img ⟨s.vars,mem⟩ ∧
      (∀ z, owner z → SameTree (img z) s.device mem) ∧
      ∀ z, owner z → contents (img z) mem = contents (img z) s.device := by
  have untouched (z : Nat) (owns : owner z) (k : Nat) (low : k < 16635) (present : dataSector (img z) s.device k ≠ 0) :
      mem (dataSector (img z) s.device k) = s.device (dataSector (img z) s.device k) :=
    clean _ fun stained => layout.data_apart owns k low present (Or.inl (within _ stained))
  have inner (z : Nat) (owns : owner z) (y : Nat) (present : y ≠ 0) (above : Inner (img z) s.device y) :
      mem y = s.device y := by
    obtain ⟨pointer,path,key,_,here⟩ := above
    apply clean
    intro stained
    exact layout.forest.apart (z,pointer) path ((inodePart owns).key _ _ key) (here ▸ present)
      (Or.inl (here ▸ within _ stained))
  have nodes (z : Nat) (owns : owner z) : SameTree (img z) s.device mem :=
    SoundMap.node_eq (layout.map owns) mem (fun y _ _ present above => inner z owns y present above)
  refine ⟨layout.rewrite mem (fun z owns y present _ above => inner z owns y present above) ?_,nodes,?_⟩
  · intro z owns i low past present
    rw [untouched z owns _ (by omega) present]
    exact layout.slack z owns i low past present
  · intro z owns
    have limit := layout.limit z owns
    apply contents_congr _ _ _ _ rfl
    intro i low
    have block := nodes z owns _ _ (dataPath_key (i / 512) (by omega)).1
    change dataSector (img z) mem (i / 512) = dataSector (img z) s.device (i / 512) at block
    unfold fileByte
    rw [block,untouched z owns _ (by omega) (layout.present owns (i / 512) (by omega))]

/-- A sector that was handed out: free before, marked and owned by nobody now. -/
structure HandedOut (reserved owner : Nat → Prop) (img : Nat → Sector) (s t : Volume) (x : Nat) : Prop where
  unowned : Unowned reserved owner img t x
  clear : bitmapTest s.vars.freeMap x = false
  marked : bitmapTest t.vars.freeMap x = true
  others : ∀ y, bitmapTest t.vars.freeMap y = true → y = x ∨ bitmapTest s.vars.freeMap y = true
  log : t.vars.allocations = s.vars.allocations ++ [some x]

/-- `free_map_allocate` in a layout. -/
theorem Layout.allocate {write : Writer} (layout : Layout reserved owner img s) (ready : Ready reserved dirty s)
    (isWrite : IsWrite write) :
    (∃ x t, (freeMapAllocate write 1).exec s = (some x,t) ∧ Allocated s t true 1 ∧ Ready reserved dirty t ∧
      Layout reserved owner img t ∧ Aside reserved dirty owner img x true s t ∧ HandedOut reserved owner img s t x) ∨
    (freeMapAllocate write 1).exec s = (none,{s with vars.allocations := s.vars.allocations ++ [none]}) ∧
      s.vars.freeMap.clearCount = 0 := by
  rcases allocate_spec ready isWrite with ⟨x,mem,run,inside,clear,clean,ready'⟩ | full
  · left
    have mark (y : Nat) : bitmapTest (bitmapSet s.vars.freeMap x true) y =
        if y = x then true else bitmapTest s.vars.freeMap y := test_set _ ready.packed.length _ _ _ inside
    have still (y : Nat) (marked : bitmapTest s.vars.freeMap y = true) :
        bitmapTest (bitmapSet s.vars.freeMap x true) y = true := by
      rw [mark]
      split
      · rfl
      · exact marked
    obtain ⟨moved,nodes,files⟩ := layout.dirtied ready.within mem clean
    have nobody := layout.unowned ready clear
    refine ⟨x,_,run,⟨⟨rfl,by simp,still,[some x],rfl,by simp,?_⟩,⟨fun _ => ?_,fun contrary => ?_⟩,rfl⟩,ready',?_,
      ⟨fun z owns _ => ?_,fun y _ unstained _ => clean y unstained,fun z owns _ => files z owns,
        fun z owns _ => nodes z owns⟩,⟨⟨nobody.free,nobody.other,?_⟩,clear,(mark x).trans (if_pos rfl),fun y marked => ?_,rfl⟩⟩
    · intro y member
      rw [List.mem_singleton] at member
      exact Option.some.inj member ▸ clear
    · exact clearCount_mark s.vars.freeMap ready.packed.length x inside clear
    · exact absurd contrary (by decide)
    · exact moved.remark (fun _ owns => owns) rfl (fun z owns => still z (layout.marked z owns))
        (fun z pointer path owns key present => still _ (moved.forest.marked (z,pointer) path
          ((inodePart owns).key _ _ key) present))
    · exact clean z fun stained => layout.free z owns (ready.within z stained)
    · intro z pointer path owns key
      change node blocks mem ((img z).word pointer) path ≠ 0 → _
      rw [nodes z owns pointer path key]
      exact nobody.apart z pointer path owns key
    · change bitmapTest (bitmapSet s.vars.freeMap x true) y = true at marked
      rw [mark] at marked
      split at marked
      · left
        assumption
      · exact Or.inr marked
  · right
    exact ⟨allocate_full write s full,clearCount_eq_zero _ fun i inside => scan_none _ full i inside⟩

end

section
variable (length : Int) (isDir : Bool)

/-- The words of a new inode. -/
theorem word_newInodeDisk (j : Nat) (small : j < 128) : (newInodeDisk length isDir).word j =
    if j = 125 then if isDir then 1 else 0 else if j = 127 then inodeMagic
      else if j = 126 then (length % 4294967296).toNat else 0 := by
  have flag : (if isDir then 1 else 0) < 4294967296 := by split <;> decide
  unfold newInodeDisk Sector.setLength
  rw [Sector.word_setWord _ 125 _ j small flag,Sector.word_setWord _ 127 _ j small (by decide),
    Sector.word_setWord _ 126 _ j small (by omega),Sector.word_zeros]

theorem length_newInodeDisk (low : -2147483648 ≤ length) (high : length < 2147483648) :
    (newInodeDisk length isDir).length = length := by
  unfold Sector.length
  rw [word_newInodeDisk _ _ 126 (by decide)]
  simp only [Nat.reduceEqDiff,if_false,if_true]
  unfold i32
  omega

theorem newInodeDisk_blank (j : Nat) (low : j < 125) : (newInodeDisk length isDir).word j = 0 := by
  rw [word_newInodeDisk _ _ j (by omega),if_neg (by omega),if_neg (by omega),if_neg (by omega)]

theorem missing_newInodeDisk (mem : Nat → Sector) :
    missing (newInodeDisk length isDir) mem (inodeReach (bytesToSectors length)) =
      (inodeReach (bytesToSectors length)).length := by
  apply List.countP_eq_length.mpr
  intro k member
  rw [newInodeDisk_blank length isDir k.1 (inodeReach_key _ k member).dom,node_null]
  rfl

/-- A new inode has no blocks yet. -/
theorem newInodeDisk_sound (kept : Nat → Prop) (a : Arena Sector) : SoundMap kept a (newInodeDisk length isDir) := by
  have null (pointer : Nat) (path : List Nat) (key : Key blocks height isPointer pointer path) :
      node blocks a.mem ((newInodeDisk length isDir).word pointer) path = 0 := by
    rw [newInodeDisk_blank length isDir pointer key.dom,node_null]
  exact ⟨fun pointer path key present => absurd (null pointer path key) present,
    fun pointer path key present => absurd (null pointer path key) present,
    fun pointer path _ _ key _ present => absurd (null pointer path key) present⟩

theorem exec_inodeCreate (x : Nat) (s : Volume) (low : -2147483648 ≤ length) (high : length < 2147483648) :
    (inodeCreate x length isDir).exec s =
      let reserved := (inodeReserve inodeWriteAt (newInodeDisk length isDir) length).exec s
      if reserved.1.1 then (true,{reserved.2 with device := Function.update reserved.2.device x reserved.1.2})
      else (false,reserved.2) := by
  unfold inodeCreate inodeAllocate
  simp only [Task.exec_bind,length_newInodeDisk length isDir low high,Task.exec_ite,exec_bufferWrite,Task.exec_pure]

end

section
variable {reserved dirty owner : Nat → Prop} {img : Nat → Sector} {s t : Volume} {x : Nat}

/-- What `inode_create` does: it makes a file of zeros, or it leaves the blocks it took
where nobody owns them. `done` tells whether all sectors were found. -/
structure CreateOutcome (reserved dirty owner : Nat → Prop) (img : Nat → Sector) (s t : Volume) (x : Nat)
    (length : Int) (isDir done : Bool) : Prop where
  allocated : Allocated s t done (inodeReach (bytesToSectors length)).length
  ready : Ready reserved dirty t
  aside : Aside reserved dirty owner img x done s t
  gains : done = true → length ≤ 8517120 → Gains s t Sector.zeros (t.device x) x
  made : done = true → length ≤ 8517120 → ∃ d, d.length = length ∧ d.isDir = isDir ∧ d.magic = inodeMagic ∧
    t.device x = d ∧ Layout reserved (fun z => owner z ∨ z = x) (Function.update img x d) t ∧
    contents d t.device = List.replicate length.toNat 0
  failed : done = false ∨ 8517120 < length → Layout reserved owner img t

/-- `inode_create` on a sector that nobody owns. -/
theorem inodeCreate_spec (layout : Layout reserved owner img s) (ready : Ready reserved dirty s) (origin : reserved 0)
    (unowned : Unowned reserved owner img s x) (marked : bitmapTest s.vars.freeMap x = true) (length : Int)
    (isDir : Bool) (natural : 0 ≤ length) (bound : length < 2147483648) :
    ∃ done t, (inodeCreate x length isDir).exec s = (done && decide (length ≤ 8517120),t) ∧
      CreateOutcome reserved dirty owner img s t x length isDir done := by
  have start := newInodeDisk_blank length isDir
  have blank (j : Nat) (low : j < 125) : ((newInodeDisk length isDir).setLength 0).word j = 0 := by
    rw [word_setLength _ _ _ (by omega) (by omega),start j low]
  have wide := layout.insert unowned marked blank (length_setLength _ _ (by decide) (by decide))
  have owns : owner x ∨ x = x := Or.inr rfl
  have same (j : Nat) (low : j < 125) : (newInodeDisk length isDir).word j =
      (Function.update img x ((newInodeDisk length isDir).setLength 0) x).word j := by
    rw [Function.update_self,start j low,blank j low]
  have sound := (wide.map owns).congr_root same
  obtain ⟨done,run,result⟩ := inodeReserve_spec isWrite_inodeWriteAt ready.within s (newInodeDisk length isDir) length ready
    (fun y taken => Or.inl taken) (wide.held ready) sound natural
  have total := length_newInodeDisk length isDir (by omega) bound
  have fits : decide (bytesToSectors length ≤ 16635) = decide (length ≤ 8517120) := by
    rw [decide_eq_decide,bytesToSectors_le _ natural bound]
  have wanted := missing_newInodeDisk length isDir s.device
  have step := exec_inodeCreate length isDir x s (by omega) bound
  rw [fits] at result
  rw [step]
  generalize (inodeReserve inodeWriteAt (newInodeDisk length isDir) length).exec s = outcome at run result
  obtain ⟨⟨found,d⟩,t⟩ := outcome
  simp only at run result ⊢
  have allocated := run.allocated
  rw [wanted] at allocated
  have outside (j : Nat) (high : 125 ≤ j) (k : Nat × List Nat) (member : k ∈ inodeReach (bytesToSectors length)) :
      k.1 ≠ j := by
    have low : k.1 < 125 := (inodeReach_key _ k member).dom
    omega
  have old (z : Nat) (other : z ≠ x) (image : Sector) : Function.update img x image z = img z :=
    Function.update_of_ne other _ _
  by_cases success : done = true ∧ length ≤ 8517120
  · obtain ⟨rfl,small⟩ := success
    rw [decide_eq_true small,Bool.and_true] at result
    rw [decide_eq_true small]
    subst result
    obtain ⟨n,rfl⟩ := Int.eq_ofNat_of_zero_le natural
    have size : d.length = n := by
      have kept := run.words 126 (by decide) (outside 126 (by decide))
      unfold Sector.length at total ⊢
      rw [kept,total]
    obtain ⟨after,grown,aside,gains,padded⟩ := extend_done wide ready owns (by omega)
      (by rw [Function.update_self,length_setLength _ _ (by decide) (by decide)]; omega) run same
    have restored : d.setLength n = d := by rw [← size,setLength_self]
    rw [restored] at after grown aside gains padded
    rw [Function.update_idem] at after
    refine ⟨true,_,rfl,allocated.device _,grown,?_,fun _ _ => ?_,fun _ _ => ?_,fun stopped => ?_⟩
    · refine ⟨fun z other ne => aside.inodes z (Or.inl other) ne,aside.system,fun z other ne => ?_,fun z other ne => ?_⟩
      · have carried := aside.files z (Or.inl other) ne
        rwa [old z ne] at carried
      · have carried := aside.trees z (Or.inl other) ne
        rwa [old z ne] at carried
    · dsimp only
      rw [Function.update_self]
      exact gains.source fun j low => (same j low).symm.trans ((start j low).trans (Sector.word_zeros j).symm)
    · refine ⟨d,size,isDir_of_word d isDir ?_,?_,Function.update_self _ _ _,after,?_⟩
      · rw [run.words 125 (by decide) (outside 125 (by decide)),word_newInodeDisk _ _ 125 (by decide),if_pos rfl]
      · unfold Sector.magic
        rw [run.words 127 (by decide) (outside 127 (by decide)),word_newInodeDisk _ _ 127 (by decide)]
        rfl
      · apply List.ext_getElem
        · rw [length_contents,List.length_replicate,size]
        · intro i left right
          have inside : i < n := by simpa using right
          rw [getElem_contents,padded i inside,getD_contents,if_neg]
          · simp
          · rw [Function.update_self,length_setLength _ _ (by decide) (by decide)]
            omega
    · rcases stopped with contrary | large
      · exact absurd contrary (by decide)
      · omega
  · have refused : found = false := by
      rw [result]
      cases done with
      | false => rfl
      | true => exact decide_eq_false fun small => success ⟨rfl,small⟩
    subst refused
    obtain ⟨after,keeps,trees⟩ := wide.reserves owns ready.within ready.held run same (fun _ _ => Or.inr rfl) rfl
    rw [Function.update_eq_self] at after keeps
    have frame (y : Nat) (held : bitmapTest s.vars.freeMap y = true) (clean : ¬dirty y) (allowed : done = true ∨ y ≠ 0)
        (apart : reserved y ∨ owner y ∨ y = x) : t.device y = s.device y := by
      apply run.grow.frame y held clean allowed
      intro pointer path key _ present equal
      rw [same pointer key.dom] at present equal
      exact wide.forest.apart (x,pointer) path ((inodePart owns).key _ _ key) present (equal ▸ apart)
    have back : Layout reserved owner img t := by
      have fewer := after.remark (t := t) (fun z (other : owner z) => Or.inl other) rfl
        (fun z other => after.marked z (Or.inl other)) (fun z pointer path other key present =>
          after.forest.marked (z,pointer) path ((inodePart (Or.inl other)).key _ _ key) present)
      exact fewer.image fun z other => (old z (fun equal => unowned.other (equal ▸ other)) _).symm
    refine ⟨done,t,?_,allocated,run.ready,⟨fun z other _ => ?_,fun y taken clean allowed => ?_,fun z other ne => ?_,
      fun z other ne => ?_⟩,fun finished small => absurd ⟨finished,small⟩ success,
      fun finished small => absurd ⟨finished,small⟩ success,fun _ => back⟩
    · rw [← result]
      rfl
    · exact frame z (layout.marked z other) (fun stained => layout.free z other (ready.within z stained))
        (Or.inr fun null => layout.free z other (null ▸ origin)) (Or.inr (Or.inl other))
    · exact frame y (ready.held y taken) clean allowed (Or.inl taken)
    · have carried := keeps.contents_eq wide (Or.inl other) rfl
      rwa [old z ne] at carried
    · have carried := trees z (Or.inl other) ne
      rwa [old z ne] at carried

end
end MyShell.FS
