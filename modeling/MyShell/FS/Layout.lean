import MyShell.FS.Reserve

/-! The layout of several files on one device: which sectors belong to whom. The
inodes are given by their images, which for an open inode may be ahead of the disk. -/
namespace MyShell.FS
open BlockProgram PointerForest Bitmap

/-- The pointers of all inodes together, indexed by inode sector and pointer. -/
def pointers (img : Nat → Sector) (k : Nat × Nat) : Nat := (img k.1).word k.2

def isPointerOf (owner : Nat → Prop) (k : Nat × Nat) : Prop := owner k.1 ∧ k.2 < 125

/-- The inodes at the sectors `owner` with images `img`. Their blocks are marked, each
belongs to one place of one inode, and none is reserved or an inode. The blocks for the
length are there, and bytes past the length are zero. -/
structure Layout (reserved owner : Nat → Prop) (img : Nat → Sector) (s : Volume) : Prop where
  forest : Sound blocks (fun k : Nat × Nat => height k.2) (isPointerOf owner) (fun y => reserved y ∨ owner y)
    (arena s) (pointers img)
  marked : ∀ x, owner x → bitmapTest s.vars.freeMap x = true
  free : ∀ x, owner x → ¬reserved x
  natural : ∀ x, owner x → 0 ≤ (img x).length
  limit : ∀ x, owner x → (img x).length ≤ 8517120
  complete : ∀ x, owner x → ∀ k ∈ inodeReach (bytesToSectors (img x).length),
    node blocks s.device ((img x).word k.1) k.2 ≠ 0
  slack : ∀ x, owner x → ∀ i : Nat, i < 8517120 → (img x).length ≤ i → dataSector (img x) s.device (i / 512) ≠ 0 →
    fileByte (img x) s.device i = 0

theorem bytesToSectors_nat (length : Nat) (limit : length ≤ 2147483136) :
    bytesToSectors length = (length + 511) / 512 := by
  unfold bytesToSectors
  rw [i32_of_bounds _ (by omega) (by omega),show (length : Int) + 511 = (length + 511 : Nat) by omega,
    show ((length + 511 : Nat) : Int).tdiv 512 = ((length + 511) / 512 : Nat) from rfl]
  omega

theorem bytesToSectors_large (length : Int) (low : 2147483136 < length) (high : length < 2147483648) :
    16635 < bytesToSectors length := by
  unfold bytesToSectors
  have wrapped : i32 (length + 511) = length + 511 - 4294967296 := by unfold i32; omega
  rw [wrapped,show length + 511 - 4294967296 = -((4294967296 - (length + 511)).toNat : Int) by omega,Int.neg_tdiv,
    show (((4294967296 - (length + 511)).toNat : Nat) : Int).tdiv 512 =
      ((4294967296 - (length + 511)).toNat / 512 : Nat) from rfl]
  omega

/-- A length has its blocks exactly when it is not beyond the largest file. -/
theorem bytesToSectors_le (length : Int) (low : 0 ≤ length) (high : length < 2147483648) :
    bytesToSectors length ≤ 16635 ↔ length ≤ 8517120 := by
  by_cases small : length ≤ 2147483136
  · obtain ⟨n,rfl⟩ := Int.eq_ofNat_of_zero_le low
    rw [bytesToSectors_nat n (by omega)]
    omega
  · have large := bytesToSectors_large length (by omega) high
    omega

theorem length_bounds (d : Sector) : -2147483648 ≤ d.length ∧ d.length < 2147483648 := by
  unfold Sector.length i32
  omega

theorem length_setLength (d : Sector) (length : Int) (low : -2147483648 ≤ length) (high : length < 2147483648) :
    (d.setLength length).length = length := by
  have bound : (length % 4294967296).toNat < 4294967296 := by omega
  unfold Sector.setLength Sector.length
  rw [Sector.word_setWord d 126 _ 126 (by decide) bound,if_pos rfl]
  unfold i32
  omega

theorem word_setLength (d : Sector) (length : Int) (j : Nat) (small : j < 128) (other : j ≠ 126) :
    (d.setLength length).word j = d.word j := by
  have bound : (length % 4294967296).toNat < 4294967296 := by omega
  unfold Sector.setLength
  rw [Sector.word_setWord d 126 _ j small bound,if_neg other]

theorem setLength_setLength (d : Sector) (first second : Int) :
    (d.setLength first).setLength second = d.setLength second := Sector.setWord_setWord _ _ _ _

theorem setLength_self (d : Sector) : d.setLength d.length = d := by
  have bound := d.word_lt 126
  unfold Sector.setLength Sector.length i32
  rw [show (((d.word 126 : Int) + 2147483648) % 4294967296 - 2147483648) % 4294967296 = d.word 126 by omega,
    Int.toNat_natCast]
  exact d.setWord_self 126

/-- The directory flag is the first byte of its word. -/
theorem isDir_of_word (d : Sector) (isDir : Bool) (word : d.word 125 = if isDir then 1 else 0) : d.isDir = isDir := by
  have byte := Sector.byteOf_word d 500 (by decide)
  rw [show 500 / 4 = 125 from rfl,word] at byte
  unfold Sector.isDir
  rw [← byte]
  cases isDir <;> rfl

theorem isDir_congr (d d' : Sector) (same : d'.word 125 = d.word 125) : d'.isDir = d.isDir := by
  have byte := Sector.byteOf_word d 500 (by decide)
  have byte' := Sector.byteOf_word d' 500 (by decide)
  rw [show 500 / 4 = 125 from rfl] at byte byte'
  unfold Sector.isDir
  rw [← byte,← byte',same]

section
variable {reserved dirty owner : Nat → Prop} {img : Nat → Sector} {s t : Volume} {x : Nat}

/-- One inode as a part of all of them. -/
theorem inodePart (owns : owner x) :
    Subforest height isPointer (fun k : Nat × Nat => height k.2) (isPointerOf owner) (fun p => (x,p)) where
  tall _ := rfl
  inside _ inside := ⟨owns,inside⟩
  split i member := by
    by_cases same : i.1 = x
    · exact Or.inl ⟨i.2,member.2,Prod.ext same.symm rfl⟩
    · exact Or.inr fun p _ equal => same (congrArg Prod.fst equal).symm

theorem Layout.map (layout : Layout reserved owner img s) (owns : owner x) :
    SoundMap (fun y => reserved y ∨ owner y) (arena s) (img x) := by
  have distinct (p q : Nat) (same : (x,p) = (x,q)) : p = q := (Prod.mk.inj same).2
  have map := Sound.part (inodePart owns) layout.forest distinct
  exact map

theorem Layout.held (layout : Layout reserved owner img s) (ready : Ready reserved dirty s) (y : Nat)
    (taken : reserved y ∨ owner y) : bitmapTest s.vars.freeMap y = true :=
  taken.elim (ready.held y) (layout.marked y)

theorem Layout.natCast (layout : Layout reserved owner img s) (owns : owner x) :
    ((img x).length.toNat : Int) = (img x).length := Int.toNat_of_nonneg (layout.natural x owns)

theorem Layout.present (layout : Layout reserved owner img s) (owns : owner x) :
    Present (img x) s.device (img x).length.toNat := by
  intro k inside
  have limit := layout.limit x owns
  have natural := layout.natural x owns
  apply layout.complete x owns
  apply inodeReach_data
  · rw [← layout.natCast owns,bytesToSectors_nat _ (by omega)]
    omega
  · omega

theorem Layout.data_apart (layout : Layout reserved owner img s) (owns : owner x) (k : Nat) (inside : k < 16635)
    (present : dataSector (img x) s.device k ≠ 0) :
    ¬(reserved (dataSector (img x) s.device k) ∨ owner (dataSector (img x) s.device k)) :=
  layout.forest.apart _ _ ((inodePart owns).key _ _ (dataPath_key k inside).1) present

/-- The data blocks of an inode are not blocks of pointers, of any inode. -/
theorem Layout.outer (layout : Layout reserved owner img s) {z : Nat} (owns : owner x) (other : owner z) (k : Nat)
    (inside : k < 16635) (present : dataSector (img z) s.device k ≠ 0) :
    ¬Inner (img x) s.device (dataSector (img z) s.device k) := by
  rintro ⟨pointer,path,key,deep,same⟩
  obtain ⟨leaf,tall⟩ := dataPath_key k inside
  have met := layout.forest.single (z,(dataPath k).1) (dataPath k).2 (x,pointer) path
    ((inodePart other).key _ _ leaf) ((inodePart owns).key _ _ key) present same.symm
  have pointers : (dataPath k).1 = pointer := congrArg Prod.snd met.1
  rw [met.2,pointers] at tall
  omega

/-- Two data blocks of the layout that share a sector are the same one. -/
theorem Layout.dataSector_inj (layout : Layout reserved owner img s) {z : Nat} (owns : owner x) (other : owner z)
    (j k : Nat) (hj : j < 16635) (hk : k < 16635) (present : dataSector (img x) s.device j ≠ 0)
    (same : dataSector (img x) s.device j = dataSector (img z) s.device k) : x = z ∧ j = k := by
  have met := layout.forest.single (x,(dataPath j).1) (dataPath j).2 (z,(dataPath k).1) (dataPath k).2
    ((inodePart owns).key _ _ (dataPath_key j hj).1) ((inodePart other).key _ _ (dataPath_key k hk).1) present same
  obtain ⟨inodes,paths⟩ := met
  obtain ⟨rfl,pointers⟩ := Prod.ext_iff.mp inodes
  exact ⟨rfl,dataPath_injective j k (Prod.ext pointers paths)⟩

/-- A change of the memory outside the blocks of pointers and the data past the lengths. -/
theorem Layout.rewrite (layout : Layout reserved owner img s) (mem : Nat → Sector)
    (inner : ∀ z, owner z → ∀ y, y ≠ 0 → bitmapTest s.vars.freeMap y = true → Inner (img z) s.device y →
      mem y = s.device y)
    (slack : ∀ z, owner z → ∀ i : Nat, i < 8517120 → (img z).length ≤ i → dataSector (img z) s.device (i / 512) ≠ 0 →
      (mem (dataSector (img z) s.device (i / 512))).byte (i % 512) = 0) :
    Layout reserved owner img ⟨s.vars,mem⟩ := by
  have nodes (z : Nat) (owns : owner z) (pointer : Nat) (path : List Nat)
      (key : Key blocks height isPointer pointer path) :
      node blocks mem ((img z).word pointer) path = node blocks s.device ((img z).word pointer) path :=
    SoundMap.node_eq (layout.map owns) mem (fun y used _ present above => inner z owns y present used above) pointer path key
  refine ⟨?_,layout.marked,layout.free,layout.natural,layout.limit,?_,?_⟩
  · refine layout.forest.rewrite mem ?_
    rintro y used _ present ⟨⟨z,pointer⟩,above,key,deep,here⟩
    exact inner z key.dom.1 y present used ⟨pointer,above,⟨key.dom.2,key.short,key.inside⟩,deep,here⟩
  · intro z owns k member
    rw [nodes z owns k.1 k.2 (inodeReach_key _ k member)]
    exact layout.complete z owns k member
  · intro z owns i inside beyond present
    have same := nodes z owns _ _ (dataPath_key (i / 512) (by omega)).1
    change node blocks mem _ _ ≠ 0 at present
    rw [same] at present
    have block : dataSector (img z) mem (i / 512) = dataSector (img z) s.device (i / 512) := same
    unfold fileByte
    rw [block]
    exact slack z owns i inside beyond present

theorem Layout.congr (layout : Layout reserved owner img s) (device : t.device = s.device)
    (freeMap : t.vars.freeMap = s.vars.freeMap) : Layout reserved owner img t := by
  obtain ⟨⟨_,_,_,_⟩,_⟩ := t
  obtain ⟨⟨_,_,_,_⟩,_⟩ := s
  simp only at device freeMap
  subst device freeMap
  exact ⟨layout.forest,layout.marked,layout.free,layout.natural,layout.limit,layout.complete,layout.slack⟩

/-- The nodes and the data of every inode in `s` are there in `t` too. -/
structure Keeps (owner : Nat → Prop) (s : Volume) (img : Nat → Sector) (t : Volume) (img' : Nat → Sector) : Prop where
  nodes : ∀ z, owner z → ∀ pointer path, Key blocks height isPointer pointer path →
    node blocks s.device ((img z).word pointer) path ≠ 0 →
    node blocks t.device ((img' z).word pointer) path = node blocks s.device ((img z).word pointer) path
  data : ∀ z, owner z → ∀ k < 16635, dataSector (img z) s.device k ≠ 0 →
    t.device (dataSector (img z) s.device k) = s.device (dataSector (img z) s.device k)

theorem Keeps.dataSector_eq {img' : Nat → Sector} (keeps : Keeps owner s img t img') (owns : owner x) (k : Nat)
    (inside : k < 16635) (present : dataSector (img x) s.device k ≠ 0) :
    dataSector (img' x) t.device k = dataSector (img x) s.device k :=
  keeps.nodes x owns _ _ (dataPath_key k inside).1 present

theorem Keeps.fileByte_eq {img' : Nat → Sector} (keeps : Keeps owner s img t img') (owns : owner x) (i : Nat)
    (inside : i < 8517120) (present : dataSector (img x) s.device (i / 512) ≠ 0) :
    fileByte (img' x) t.device i = fileByte (img x) s.device i := by
  unfold fileByte
  rw [keeps.dataSector_eq owns _ (by omega) present,keeps.data x owns _ (by omega) present]

/-- Reserving for one inode keeps the layout, whichever of the new pointers get recorded. -/
theorem Layout.reserves {d₀ d d' : Sector} {keys : List (Nat × List Nat)} {done : Bool}
    (layout : Layout reserved owner img s) (owns : owner x) (within : ∀ y, dirty y → reserved y)
    (held : ∀ y, reserved y → bitmapTest s.vars.freeMap y = true)
    (run : Reserves reserved dirty height 125 keys done s d₀ t d) (start : ∀ j < 125, d₀.word j = (img x).word j)
    (choice : ∀ j < 125, d'.word j = d.word j ∨ d'.word j = (img x).word j) (length : d'.length = (img x).length) :
    Layout reserved owner (Function.update img x d') t ∧ Keeps owner s img t (Function.update img x d') ∧
      ∀ z, owner z → z ≠ x → SameTree (img z) s.device t.device := by
  have clean (y : Nat) (stained : dirty y) : reserved y ∨ owner y := Or.inl (within y stained)
  have taken (y : Nat) (kept : reserved y ∨ owner y) : bitmapTest s.vars.freeMap y = true :=
    kept.elim (held y) (layout.marked y)
  have recorded : Grow blocks height isPointer dirty done (arena s) (img x).word (arena t) d'.word :=
    (run.grow.congr_root (fun j low => (start j low).symm) (fun _ _ => rfl)).sub choice
  have grow : Grow blocks (fun k : Nat × Nat => height k.2) (isPointerOf owner) dirty done (arena s) (pointers img)
      (arena t) (pointers (Function.update img x d')) := by
    refine Grow.embed (inodePart owns) layout.forest clean recorded (fun p _ => ?_) fun i member ne => ?_
    · simp only [pointers,Function.update_self]
    · have other : i.1 ≠ x := fun same => ne i.2 member.2 (Prod.ext same.symm rfl)
      simp only [pointers,Function.update_of_ne other]
  have keeps : Keeps owner s img t (Function.update img x d') := by
    constructor
    · exact fun z other pointer path key present => grow.kept (z,pointer) path ((inodePart other).key _ _ key) present
    · intro z other k inside present
      have key := (inodePart other).key _ _ (dataPath_key k inside).1
      apply run.grow.frame _ (layout.forest.marked _ _ key present)
        (fun stained => layout.forest.apart _ _ key present (clean _ stained)) (Or.inr present)
      intro pointer path key' deep _ same
      rw [start pointer key'.dom] at same
      exact layout.outer owns other k inside present ⟨pointer,path,key',deep,same⟩
  have lengths (z : Nat) : (Function.update img x d' z).length = (img z).length := by
    rw [Function.update_apply]
    split
    · rename_i same
      rw [same,length]
    · rfl
  refine ⟨⟨layout.forest.grow grow taken,fun z other => run.allocated.mono z (layout.marked z other),layout.free,
    fun z other => by rw [lengths]; exact layout.natural z other,
    fun z other => by rw [lengths]; exact layout.limit z other,?_,?_⟩,keeps,?_⟩
  · intro z other k member
    rw [lengths] at member
    have here := layout.complete z other k member
    rwa [keeps.nodes z other k.1 k.2 (inodeReach_key _ k member) here]
  · intro z other i inside beyond present
    rw [lengths] at beyond
    by_cases old : dataSector (img z) s.device (i / 512) = 0
    · -- a block that was not there before is still blank
      obtain ⟨key,leaf⟩ := dataPath_key (i / 512) (by omega)
      have blank := grow.blank (z,(dataPath (i / 512)).1) _ ((inodePart other).key _ _ key) leaf old present
      unfold fileByte
      exact (congrArg (fun b : Sector => b.byte (i % 512)) blank).trans (Sector.byte_zeros _)
    · rw [keeps.fileByte_eq other i inside old]
      exact layout.slack z other i inside beyond old
  · intro z other ne pointer path key
    exact Grow.others (inodePart owns) layout.forest clean recorded (z,pointer) path ((inodePart other).key _ _ key)
      fun p _ same => ne (congrArg Prod.fst same).symm

/-- The blocks for a new length are there: the inode takes it, in memory and on disk. -/
theorem Layout.resize (layout : Layout reserved owner img s) (owns : owner x) (length : Nat)
    (limit : length ≤ 8517120) (longer : (img x).length ≤ length)
    (complete : ∀ k ∈ inodeReach (bytesToSectors length), node blocks s.device ((img x).word k.1) k.2 ≠ 0) :
    Layout reserved owner (Function.update img x ((img x).setLength length))
        ⟨s.vars,Function.update s.device x ((img x).setLength length)⟩ ∧
      Keeps owner s img ⟨s.vars,Function.update s.device x ((img x).setLength length)⟩
        (Function.update img x ((img x).setLength length)) ∧
      ∀ z, owner z → SameTree (img z) s.device (Function.update s.device x ((img x).setLength length)) := by
  have total := length_setLength (img x) length (by omega) (by omega)
  have words (z pointer : Nat) (low : pointer < 125) :
      (Function.update img x ((img x).setLength length) z).word pointer = (img z).word pointer := by
    rw [Function.update_apply]
    split
    · rename_i same
      rw [same,word_setLength _ _ _ (by omega) (by omega)]
    · rfl
  have beyond (y : Nat) (free : ¬owner y) : Function.update s.device x ((img x).setLength length) y = s.device y :=
    Function.update_of_ne (fun same : y = x => free (same ▸ owns)) _ _
  have written := layout.rewrite (Function.update s.device x ((img x).setLength length))
    (fun z other y present used inner => by
      obtain ⟨pointer,path,key,deep,here⟩ := inner
      have apart := layout.forest.apart (z,pointer) path ((inodePart other).key _ _ key) (here ▸ present)
      exact beyond y fun inode => apart (Or.inr (here ▸ inode)))
    (fun z other i inside past present => by
      rw [beyond _ fun inode => layout.data_apart other _ (by omega) present (Or.inr inode)]
      exact layout.slack z other i inside past present)
  have nodes (z : Nat) (other : owner z) (pointer : Nat) (path : List Nat)
      (key : Key blocks height isPointer pointer path) :
      node blocks (Function.update s.device x ((img x).setLength length)) ((img z).word pointer) path =
        node blocks s.device ((img z).word pointer) path :=
    SoundMap.node_eq (layout.map other) _ (fun y _ free _ _ => beyond y fun inode => free (Or.inr inode)) pointer path key
  refine ⟨⟨?_,written.marked,written.free,?_,?_,?_,?_⟩,⟨?_,?_⟩,nodes⟩
  · refine Sound.congr_root written.forest fun k member => ?_
    exact words k.1 k.2 member.2
  · intro z other
    rw [Function.update_apply]
    split
    · rw [total]
      omega
    · exact layout.natural z other
  · intro z other
    rw [Function.update_apply]
    split
    · rw [total]
      omega
    · exact layout.limit z other
  · intro z other k member
    have key := inodeReach_key _ k member
    rw [words z k.1 key.dom,nodes z other k.1 k.2 key]
    by_cases same : z = x
    · subst same
      rw [Function.update_self,total] at member
      exact complete k member
    · rw [Function.update_of_ne same] at member
      exact layout.complete z other k member
  · intro z other i inside past present
    have key := (dataPath_key (i / 512) (by omega)).1
    have sector : dataSector (Function.update img x ((img x).setLength length) z)
        (Function.update s.device x ((img x).setLength length)) (i / 512) = dataSector (img z) s.device (i / 512) := by
      unfold dataSector
      rw [words z _ key.dom,nodes z other _ _ key]
    rw [sector] at present
    unfold fileByte
    change (Function.update s.device x ((img x).setLength length) _).byte _ = 0
    rw [sector,beyond _ fun inode => layout.data_apart other _ (by omega) present (Or.inr inode)]
    apply layout.slack z other i inside _ present
    by_cases same : z = x
    · subst same
      rw [Function.update_self,total] at past
      omega
    · rwa [Function.update_of_ne same] at past
  · intro z other pointer path key _
    rw [words z pointer key.dom]
    exact nodes z other pointer path key
  · intro z other k inside present
    exact beyond _ fun inode => layout.data_apart other k inside present (Or.inr inode)

/-- Data written inside one of the files. -/
theorem Layout.write {buffer : List Byte} {ofs n : Nat} {mem : Nat → Sector} (layout : Layout reserved owner img s)
    (owns : owner x) (inside : (ofs + n : Nat) ≤ (img x).length)
    (written : Written (img x) s.device mem buffer 0 ofs n) :
    Layout reserved owner img ⟨s.vars,mem⟩ ∧
      (∀ z, owner z → SameTree (img z) s.device mem) ∧
      (∀ z, owner z → z ≠ x → ∀ k < 16635, dataSector (img z) s.device k ≠ 0 →
        mem (dataSector (img z) s.device k) = s.device (dataSector (img z) s.device k)) := by
  have limit := layout.limit x owns
  have present : Present (img x) s.device (ofs + n) := fun k near =>
    layout.present owns k (by omega)
  have inner (z : Nat) (other : owner z) (y : Nat) (above : Inner (img z) s.device y) : mem y = s.device y := by
    apply written.frame
    intro k _ near same
    exact layout.outer other owns k (by omega) (present k near) (same ▸ above)
  refine ⟨layout.rewrite mem (fun z other y _ _ above => inner z other y above) ?_,?_,?_⟩
  · intro z other i low past here
    by_cases same : z = x
    · subst same
      rw [written.bytes i low here,if_neg (by omega)]
      exact layout.slack z other i low past here
    · rw [written.frame _ fun k _ near met => ?_]
      · exact layout.slack z other i low past here
      · exact same (layout.dataSector_inj owns other k (i / 512) (by omega) (by omega) (present k near) met).1.symm
  · exact fun z other pointer path key =>
      SoundMap.node_eq (layout.map other) mem (fun y _ _ _ above => inner z other y above) pointer path key
  · intro z other same k low here
    apply written.frame
    intro j _ near met
    exact same (layout.dataSector_inj owns other j k (by omega) low (present j near) met).1.symm

end
end MyShell.FS
