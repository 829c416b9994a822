import MyShell.FS.Growth

/-! Files as byte arrays: what `inode_write_at` and `inode_read_at` do to the contents
of an open inode in a layout. -/
namespace MyShell.FS
open BlockProgram PointerForest Bitmap

/-- The bytes of the file. -/
def contents (d : Sector) (mem : Nat → Sector) : List Byte := fileBytes d mem 0 d.length.toNat

/-- A byte array after `n` bytes of a buffer were stored at `ofs`. It grows as far as
needed, by zeros. -/
def arrayWrite (a buffer : List Byte) (ofs n : Nat) : List Byte :=
  (List.range (max a.length (ofs + n))).map fun i =>
    if ofs ≤ i ∧ i < ofs + n then buffer.getD (i - ofs) 0 else a.getD i 0

/-- Every block of the file is there. -/
structure Backed (d : Sector) (mem : Nat → Sector) : Prop where
  natural : 0 ≤ d.length
  limit : d.length ≤ 8517120
  present : Present d mem d.length.toNat

/-- At most `n` bytes of the array from `ofs` on. -/
def arrayRead (a : List Byte) (ofs n : Nat) : List Byte := (a.drop ofs).take n

@[simp] theorem length_contents (d : Sector) (mem : Nat → Sector) : (contents d mem).length = d.length.toNat := by
  simp [contents]

theorem getElem_contents (d : Sector) (mem : Nat → Sector) (i : Nat) (inside : i < (contents d mem).length) :
    (contents d mem)[i] = fileByte d mem i := by
  simp [contents,fileBytes]

theorem getElem_arrayWrite (a buffer : List Byte) (ofs n i : Nat) (inside : i < (arrayWrite a buffer ofs n).length) :
    (arrayWrite a buffer ofs n)[i] =
      if ofs ≤ i ∧ i < ofs + n then buffer.getD (i - ofs) 0 else a.getD i 0 := by
  simp [arrayWrite]

theorem length_arrayWrite (a buffer : List Byte) (ofs n : Nat) :
    (arrayWrite a buffer ofs n).length = max a.length (ofs + n) := by
  simp [arrayWrite]

/-- Zeros past the end make no difference to a write that reaches as far. -/
theorem arrayWrite_padded (a a' buffer : List Byte) (ofs n : Nat) (short : a.length ≤ ofs + n)
    (long : a'.length = ofs + n) (same : ∀ i < ofs + n, a'.getD i 0 = a.getD i 0) :
    arrayWrite a' buffer ofs n = arrayWrite a buffer ofs n := by
  apply List.ext_getElem
  · rw [length_arrayWrite,length_arrayWrite]
    omega
  · intro i left _
    rw [length_arrayWrite] at left
    rw [getElem_arrayWrite,getElem_arrayWrite,same i (by omega)]

theorem getD_contents (d : Sector) (mem : Nat → Sector) (i : Nat) :
    (contents d mem).getD i 0 = if i < d.length.toNat then fileByte d mem i else 0 := by
  rw [List.getD_eq_getElem?_getD]
  split
  · rename_i inside
    rw [List.getElem?_eq_getElem (by simpa using inside),Option.getD_some,getElem_contents]
  · rename_i beyond
    rw [List.getElem?_eq_none (by simpa using beyond),Option.getD_none]

theorem fileBytes_contents (d : Sector) (mem : Nat → Sector) (ofs n : Nat) :
    fileBytes d mem ofs (min n (d.length.toNat - ofs)) = arrayRead (contents d mem) ofs n := by
  apply List.ext_getElem
  · simp [arrayRead]
  · intro i left right
    simp [arrayRead,contents,fileBytes]

/-- Two files whose bytes are the same at every place of the length. -/
theorem contents_congr (d d' : Sector) (mem mem' : Nat → Sector) (length : d'.length = d.length)
    (same : ∀ i < d.length.toNat, fileByte d' mem' i = fileByte d mem i) : contents d' mem' = contents d mem := by
  unfold contents fileBytes
  rw [length]
  apply List.map_congr_left
  intro i member
  rw [Nat.zero_add]
  exact same i (List.mem_range.mp member)

section
variable {reserved dirty owner : Nat → Prop} {img : Nat → Sector} {s t : Volume} {x p : Nat} {inode : Inode}

theorem Keeps.contents_eq {img' : Nat → Sector} (keeps : Keeps owner s img t img') (layout : Layout reserved owner img s)
    (owns : owner x) (length : (img' x).length = (img x).length) :
    contents (img' x) t.device = contents (img x) s.device := by
  have limit := layout.limit x owns
  apply contents_congr _ _ _ _ length
  intro i inside
  exact keeps.fileByte_eq owns i (by omega) (layout.present owns _ (by omega))

/-- Reading an open file delivers the bytes of its array. -/
theorem inodeReadAt_backed {d : Sector} (backed : Backed d s.device) (p : Nat)
    (data : (s.vars.handles.inode p).data = d) (size ofs : Nat) :
    (inodeReadAt p size ofs).exec s = (arrayRead (contents d s.device) ofs size,s) := by
  have limit := backed.limit
  have natural := backed.natural
  unfold inodeReadAt
  simp only [Task.exec_bind,exec_getHandles,data,Int.toNat_natCast]
  rw [readLoop_spec d d.length.toNat s (by omega) (by omega) backed.present size size ofs []
    (Nat.le_refl _),List.nil_append,fileBytes_contents]

theorem Layout.backed (layout : Layout reserved owner img s) (owns : owner x) : Backed (img x) s.device :=
  ⟨layout.natural x owns,layout.limit x owns,layout.present owns⟩

theorem inodeReadAt_spec (layout : Layout reserved owner img s) (owns : owner x) (p : Nat)
    (data : (s.vars.handles.inode p).data = img x) (size ofs : Nat) :
    (inodeReadAt p size ofs).exec s = (arrayRead (contents (img x) s.device) ofs size,s) :=
  inodeReadAt_backed (layout.backed owns) p data size ofs

/-- A write inside the file. -/
theorem Layout.write_contents {buffer : List Byte} {ofs n : Nat} {mem : Nat → Sector}
    (layout : Layout reserved owner img s) (owns : owner x) (inside : (ofs + n : Nat) ≤ (img x).length)
    (written : Written (img x) s.device mem buffer 0 ofs n) :
    contents (img x) mem = arrayWrite (contents (img x) s.device) buffer ofs n ∧
      ∀ z, owner z → z ≠ x → contents (img z) mem = contents (img z) s.device := by
  obtain ⟨_,nodes,data⟩ := layout.write owns inside written
  have limit := layout.limit x owns
  constructor
  · apply List.ext_getElem
    · rw [length_arrayWrite,length_contents,length_contents]
      omega
    · intro i left right
      have bound : i < (img x).length.toNat := by simpa using left
      have block := nodes x owns _ _ (dataPath_key (i / 512) (by omega)).1
      change dataSector (img x) mem (i / 512) = dataSector (img x) s.device (i / 512) at block
      rw [getElem_contents,getElem_arrayWrite,getD_contents,if_pos bound]
      unfold fileByte
      rw [block,written.bytes i (by omega) (layout.present owns _ (by omega)),Nat.zero_add]
  · intro z other ne
    have limit' := layout.limit z other
    apply contents_congr _ _ _ _ rfl
    intro i low
    have block := nodes z other _ _ (dataPath_key (i / 512) (by omega)).1
    change dataSector (img z) mem (i / 512) = dataSector (img z) s.device (i / 512) at block
    unfold fileByte
    rw [block,data z other ne _ (by omega) (layout.present other _ (by omega))]

/-- The sectors missing for the first `total` bytes of the inode `d`. -/
def need (d : Sector) (mem : Nat → Sector) (total : Nat) : Nat :=
  if total ≤ d.length then 0 else missing d mem (inodeReach (bytesToSectors total))

/-- What a write to the inode `x` leaves alone. -/
structure Aside (reserved dirty owner : Nat → Prop) (img : Nat → Sector) (x : Nat) (done : Bool) (s t : Volume) : Prop where
  inodes : ∀ z, owner z → z ≠ x → t.device z = s.device z
  system : ∀ y, reserved y → ¬dirty y → (done = true ∨ y ≠ 0) → t.device y = s.device y
  files : ∀ z, owner z → z ≠ x → contents (img z) t.device = contents (img z) s.device
  trees : ∀ z, owner z → z ≠ x → SameTree (img z) s.device t.device

theorem Aside.trans {done more : Bool} {u : Volume} (first : Aside reserved dirty owner img x done s t)
    (second : Aside reserved dirty owner img x more t u) : Aside reserved dirty owner img x (done && more) s u := by
  refine ⟨fun z owns other => (second.inodes z owns other).trans (first.inodes z owns other),fun y taken clean allowed => ?_,
    fun z owns other => (second.files z owns other).trans (first.files z owns other),fun z owns other pointer path key =>
      (second.trees z owns other pointer path key).trans (first.trees z owns other pointer path key)⟩
  rw [Bool.and_eq_true] at allowed
  exact (second.system y taken clean (allowed.imp_left And.right)).trans
    (first.system y taken clean (allowed.imp_left And.left))

/-- The image of the inode itself does not matter. -/
theorem Aside.image {done : Bool} {d : Sector} (aside : Aside reserved dirty owner (Function.update img x d) x done s t) :
    Aside reserved dirty owner img x done s t := by
  refine ⟨aside.inodes,aside.system,fun z owns other => ?_,fun z owns other => ?_⟩
  · have same := aside.files z owns other
    rwa [Function.update_of_ne other] at same
  · have same := aside.trees z owns other
    rwa [Function.update_of_ne other] at same

/-- A write inside an open file. -/
theorem write_inside {buffer : List Byte} {ofs n : Nat} {mem : Nat → Sector} (layout : Layout reserved owner img s)
    (ready : Ready reserved dirty s) (owns : owner x) (inside : (ofs + n : Nat) ≤ (img x).length)
    (written : Written (img x) s.device mem buffer 0 ofs n) :
    Layout reserved owner img ⟨s.vars,mem⟩ ∧ Ready reserved dirty ⟨s.vars,mem⟩ ∧
      Aside reserved dirty owner img x true s ⟨s.vars,mem⟩ ∧ mem x = s.device x ∧
      contents (img x) mem = arrayWrite (contents (img x) s.device) buffer ofs n ∧ SameTree (img x) s.device mem := by
  have limit := layout.limit x owns
  have untouched (y : Nat) (apart : reserved y ∨ owner y) : mem y = s.device y := by
    apply written.frame
    intro k _ near same
    exact layout.data_apart owns k (by omega) (layout.present owns k (by omega)) (same ▸ apart)
  obtain ⟨after,trees,_⟩ := layout.write owns inside written
  obtain ⟨own,others⟩ := layout.write_contents owns inside written
  exact ⟨after,ready.writes mem fun y _ taken => untouched y (Or.inl taken),
    ⟨fun z other _ => untouched z (Or.inr other),fun y taken _ _ => untouched y (Or.inl taken),others,
      fun z other _ => trees z other⟩,untouched x (Or.inr owns),own,trees x owns⟩

/-- The extension of an inode whose blocks were all reserved. -/
theorem extend_done {d₀ d : Sector} {total : Nat} (layout : Layout reserved owner img s)
    (ready : Ready reserved dirty s) (owns : owner x) (limit : total ≤ 8517120) (longer : (img x).length ≤ total)
    (run : Reserves reserved dirty height 125 (inodeReach (bytesToSectors total)) true s d₀ t d)
    (start : ∀ j < 125, d₀.word j = (img x).word j) :
    let u : Volume := ⟨t.vars,Function.update t.device x (d.setLength total)⟩
    Layout reserved owner (Function.update img x (d.setLength total)) u ∧ Ready reserved dirty u ∧
      Aside reserved dirty owner img x true s u ∧
      Gains s u (img x) (d.setLength total) x ∧
      ∀ i < total, fileByte (d.setLength total) u.device i = (contents (img x) s.device).getD i 0 := by
  have bounds := length_bounds (img x)
  have length := length_setLength d (img x).length bounds.1 bounds.2
  obtain ⟨reserving,keeps,trees⟩ := layout.reserves owns ready.within ready.held run start
    (fun j low => Or.inl (word_setLength d (img x).length j (by omega) (by omega))) length
  obtain ⟨resized,keeps',trees'⟩ := reserving.resize owns total limit (by rw [Function.update_self,length]; exact longer)
    (by
      rw [Function.update_self]
      intro k member
      rw [word_setLength _ _ _ (Nat.lt_trans (inodeReach_key _ k member).dom (by decide))
        (Nat.ne_of_lt (Nat.lt_trans (inodeReach_key _ k member).dom (by decide)))]
      exact run.cover rfl k member)
  rw [Function.update_self,Function.update_idem,setLength_setLength] at resized keeps'
  rw [Function.update_self,setLength_setLength] at trees'
  have same (z : Nat) (other : z ≠ x) (image : Sector) : Function.update img x image z = img z :=
    Function.update_of_ne other _ _
  have frame (y : Nat) (marked : bitmapTest s.vars.freeMap y = true) (clean : ¬dirty y)
      (apart : reserved y ∨ owner y) : t.device y = s.device y := by
    apply run.grow.frame y marked clean (Or.inl rfl)
    intro pointer path key _ present equal
    rw [start pointer key.dom] at present equal
    exact layout.forest.apart (x,pointer) path ((inodePart owns).key _ _ key) present (equal ▸ apart)
  have tree : SameTree (d.setLength total) t.device (Function.update t.device x (d.setLength total)) := by
    intro pointer path key
    have second := trees' x owns pointer path key
    rw [Function.update_self] at second
    have low : pointer < 125 := key.dom
    rw [word_setLength _ _ _ (by omega) (by omega)] at second ⊢
    exact second
  refine ⟨resized,run.ready.update x _ (layout.free x owns),⟨?_,?_,?_,?_⟩,
    run.gains start (by omega) (by omega) tree x,?_⟩
  · intro z other ne
    exact (Function.update_of_ne ne _ _).trans (frame z (layout.marked z other)
      (fun stained => layout.free z other (ready.within z stained)) (Or.inr other))
  · intro y taken clean _
    have ne : y ≠ x := fun equal => layout.free x owns (equal ▸ taken)
    exact (Function.update_of_ne ne _ _).trans (frame y (ready.held y taken) clean (Or.inl taken))
  · intro z other ne
    have first := keeps.contents_eq layout other (by rw [same z ne])
    have second := keeps'.contents_eq reserving other (by rw [same z ne,same z ne])
    rw [same z ne] at first second
    rw [same z ne] at second
    exact second.trans first
  · intro z other ne pointer path key
    have first := trees z other ne pointer path key
    have second := trees' z other pointer path key
    rw [same z ne] at second
    exact second.trans first
  · intro i inside
    have present : dataSector (Function.update img x (d.setLength (img x).length) x) t.device (i / 512) ≠ 0 := by
      have member : dataPath (i / 512) ∈ inodeReach (bytesToSectors total) := by
        apply inodeReach_data
        · rw [bytesToSectors_nat _ (by omega)]
          omega
        · omega
      have low : (dataPath (i / 512)).1 < 125 := (inodeReach_key _ _ member).dom
      rw [Function.update_self,dataSector,word_setLength _ _ _ (by omega) (by omega)]
      exact run.cover rfl _ member
    have carried := keeps'.fileByte_eq owns i (by omega) present
    rw [Function.update_self,Function.update_self] at carried
    refine carried.trans ?_
    rw [getD_contents]
    split
    · rename_i before
      have old := keeps.fileByte_eq owns i (by omega) (layout.present owns _ (by omega))
      rwa [Function.update_self] at old
    · have past := reserving.slack x owns i (by omega) (by rw [Function.update_self,length]; omega) present
      rwa [Function.update_self] at past

/-- A failed extension, seen with the inode as it is on disk. -/
theorem extend_failed {d : Sector} {keys : List (Nat × List Nat)} {done : Bool} (layout : Layout reserved owner img s)
    (ready : Ready reserved dirty s) (origin : reserved 0) (owns : owner x)
    (run : Reserves reserved dirty height 125 keys done s (img x) t d) :
    Layout reserved owner img t ∧ Aside reserved dirty owner img x done s t ∧ t.device x = s.device x ∧
      contents (img x) t.device = contents (img x) s.device := by
  obtain ⟨after,keeps,trees⟩ := layout.reserves owns ready.within ready.held run (fun _ _ => rfl) (fun _ _ => Or.inr rfl) rfl
  rw [Function.update_eq_self] at after keeps
  have frame (y : Nat) (marked : bitmapTest s.vars.freeMap y = true) (clean : ¬dirty y) (allowed : done = true ∨ y ≠ 0)
      (apart : reserved y ∨ owner y) : t.device y = s.device y := by
    apply run.grow.frame y marked clean allowed
    intro pointer path key _ present equal
    exact layout.forest.apart (x,pointer) path ((inodePart owns).key _ _ key) present (equal ▸ apart)
  have inode (z : Nat) (other : owner z) : t.device z = s.device z :=
    frame z (layout.marked z other) (fun stained => layout.free z other (ready.within z stained))
      (Or.inr fun null => layout.free z other (null ▸ origin)) (Or.inr other)
  exact ⟨after,⟨fun z other _ => inode z other,fun y taken clean allowed => frame y (ready.held y taken) clean allowed
    (Or.inl taken),fun z other _ => keeps.contents_eq layout other rfl,trees⟩,inode x owns,keeps.contents_eq layout owns rfl⟩

/-- A failed extension, seen with the pointers that stay in memory. -/
theorem extend_failed_image {d : Sector} {keys : List (Nat × List Nat)} {done : Bool} (layout : Layout reserved owner img s)
    (ready : Ready reserved dirty s) (owns : owner x)
    (run : Reserves reserved dirty height 125 keys done s (img x) t d) (length : d.length = (img x).length) :
    Layout reserved owner (Function.update img x d) t ∧ contents d t.device = contents (img x) s.device := by
  obtain ⟨after,keeps,-⟩ := layout.reserves owns ready.within ready.held run (fun _ _ => rfl) (fun _ _ => Or.inl rfl) length
  have same := keeps.contents_eq layout owns (by rw [Function.update_self,length])
  rw [Function.update_self] at same
  exact ⟨after,same⟩

/-- An open handle on the inode `x`, whose data are the image, apart from the handle of
the free map file. -/
structure Holds (img : Nat → Sector) (s : Volume) (p x : Nat) (inode : Inode) : Prop where
  cell : s.vars.handles.inodes.cell p = some inode
  sector : inode.sector = x
  data : inode.data = img x
  writable : inode.denyWriteCnt = 0
  other : ∀ f, s.vars.handles.freeMapFile = some f → (s.vars.handles.file f).inode ≠ p

/-- The handles after the inode in memory was given new contents. -/
def Handles.setData (h : Handles) (p : Nat) (d : Sector) : Handles :=
  {h with inodes := h.inodes.modify p fun i => {i with data := d}}

/-- What `inode_write_at` of `n > 0` bytes at `ofs` does to an open file: it writes all
of them or none, as the sectors that are missing are found or not. -/
structure WriteOutcome (reserved dirty owner : Nat → Prop) (img : Nat → Sector) (s t : Volume) (p x : Nat)
    (buffer : List Byte) (ofs n : Nat) (done : Bool) (d : Sector) : Prop where
  marks : Marks s t done
  counts : Counts s t done (need (img x) s.device (ofs + n))
  handles : t.vars.handles = s.vars.handles.setData p d
  ready : Ready reserved dirty t
  aside : Aside reserved dirty owner img x done s t
  header : ∀ j, 125 ≤ j → j < 128 → j ≠ 126 → d.word j = (img x).word j
  gains : done = true → ofs + n ≤ 8517120 → Gains s t (img x) d x
  written : done = true → ofs + n ≤ 8517120 → Layout reserved owner (Function.update img x d) t ∧
    contents d t.device = arrayWrite (contents (img x) s.device) buffer ofs n ∧
    (s.device x = img x → t.device x = d)
  failed : done = false ∨ 8517120 < ofs + n → Layout reserved owner img t ∧
    contents (img x) t.device = contents (img x) s.device ∧ t.device x = s.device x

/-- The layout with the inode as it is in memory after the write, also where that failed. -/
structure WriteImage (reserved owner : Nat → Prop) (img : Nat → Sector) (s t : Volume) (x : Nat) (buffer : List Byte)
    (ofs n : Nat) (done : Bool) (d : Sector) : Prop where
  layout : Layout reserved owner (Function.update img x d) t
  bytes : contents d t.device =
    if done = true ∧ ofs + n ≤ 8517120 then arrayWrite (contents (img x) s.device) buffer ofs n
    else contents (img x) s.device

/-- The state with new contents for the inode in memory, and a new device. -/
def withData (s : Volume) (p : Nat) (d : Sector) (mem : Nat → Sector) : Volume :=
  ⟨{s.vars with handles := s.vars.handles.setData p d},mem⟩

theorem Ready.setData (ready : Ready reserved dirty s) (holds : Holds img s p x inode) (d : Sector) :
    Ready reserved dirty (withData s p d s.device) := by
  refine ready.handles _ rfl fun f pointer => ?_
  exact ObjectHeap.deref_modify_of_ne _ _ _ _ (holds.other f pointer)

theorem Holds.inode_eq (holds : Holds img s p x inode) : s.vars.handles.inode p = inode :=
  ObjectHeap.deref_of_cell _ _ _ holds.cell

theorem Holds.setData_eq (holds : Holds img s p x inode) (d : Sector) :
    (s.vars.handles.setData p d).inode p = {inode with data := d} :=
  ObjectHeap.deref_modify _ _ _ _ holds.cell

/-- Setting the contents that are there. -/
theorem Holds.setData_self (holds : Holds img s p x inode) : s.vars.handles.setData p (img x) = s.vars.handles := by
  unfold Handles.setData
  rw [ObjectHeap.modify_self]
  rw [holds.cell,Option.map_some,← holds.data]

theorem i32_sum (ofs n : Nat) (bound : ofs + n < 2147483648) : i32 ((ofs : Int) + n) = (ofs + n : Nat) := by
  rw [i32_of_bounds _ (by omega) (by omega)]
  omega

/-- `inode_write_at` inside the file. -/
theorem writeStep_short (write : Writer) (layout : Layout reserved owner img s)
    (ready : Ready reserved dirty s) (owns : owner x) (holds : Holds img s p x inode)
    (buffer : List Byte) (ofs n : Nat) (some : 0 < n) (inside : (ofs + n : Nat) ≤ (img x).length) :
    ∃ mem, (inodeWriteAtStep write p buffer n ofs).exec s = ((n : Int),⟨s.vars,mem⟩) ∧
      WriteOutcome reserved dirty owner img s ⟨s.vars,mem⟩ p x buffer ofs n true (img x) ∧
      SameTree (img x) s.device mem := by
  have limit := layout.limit x owns
  have data := holds.inode_eq
  obtain ⟨mem,run,written⟩ := writeAtStep_inside write s _ p (img x) buffer n ofs (img x).length.toNat ready.packed
    ready.small (by rw [data]; exact holds.data) (by rw [data]; exact holds.writable) (by omega) (by omega)
    (layout.map owns) (layout.present owns) some (by omega)
  obtain ⟨after,ready',aside,own,bytes,tree⟩ := write_inside layout ready owns inside written
  refine ⟨mem,run,⟨Marks.refl mem,?_,holds.setData_self.symm,ready',aside,fun _ _ _ _ => rfl,
    fun _ _ => (Gains.refl _ _).rewrite tree rfl,fun _ _ => ?_,fun stopped => ?_⟩,tree⟩
  · exact ⟨fun _ => by rw [need,if_pos inside]; rfl,fun contrary => absurd contrary (by decide)⟩
  · rw [Function.update_eq_self]
    exact ⟨after,bytes,fun disk => own.trans disk⟩
  · rcases stopped with contrary | large
    · exact absurd contrary (by decide)
    · omega

theorem exec_inodeExtend (write : Writer) (holds : Holds img s p x inode) (total : Int) (found : Bool) (d : Sector)
    (run : (inodeReserve write (img x) total).exec s = ((found,d),t)) :
    (inodeExtend write p total).exec s =
      if found then (true,withData t p (d.setLength total) (Function.update t.device x (d.setLength total)))
      else (false,withData t p d t.device) := by
  unfold inodeExtend
  simp only [Task.exec_bind,exec_getHandles,holds.inode_eq,holds.data,run]
  cases found with
  | true =>
    simp only [if_true,Task.exec_bind,exec_modifyInode,exec_bufferWrite,Task.exec_pure,holds.sector]
    rfl
  | false =>
    simp only [Bool.false_eq_true,if_false,Task.exec_bind,exec_modifyInode,Task.exec_pure]
    rfl

/-- `inode_write_at` past the end of the file, up to the extension. -/
theorem exec_writeStep_beyond (write : Writer) (holds : Holds img s p x inode) (buffer : List Byte) (size ofs : Int)
    (last : (byteToSector (img x) (i32 (i32 (ofs + size) - 1))).exec s = (noSector,s)) :
    (inodeWriteAtStep write p buffer size ofs).exec s =
      if ((inodeExtend write p (i32 (ofs + size))).exec s).1 then
        (writeLoop (((inodeExtend write p (i32 (ofs + size))).exec s).2.vars.handles.inode p).data buffer size.toNat
          size ofs 0).exec ((inodeExtend write p (i32 (ofs + size))).exec s).2
      else (0,((inodeExtend write p (i32 (ofs + size))).exec s).2) := by
  unfold inodeWriteAtStep
  rw [Task.exec_bind,exec_getHandles]
  dsimp only
  rw [holds.inode_eq,if_neg (not_not.mpr holds.writable),holds.data,Task.exec_bind,last]
  dsimp only
  rw [if_pos (Eq.refl _),Task.exec_bind,Task.exec_ite]
  simp only [Task.exec_bind,exec_getHandles,Task.exec_pure]

/-- The rest of `inode_write_at` once the inode was extended to the end of the write. -/
theorem writeLoop_extended {d : Sector} (layout : Layout reserved owner img s) (ready : Ready reserved dirty s)
    (owns : owner x) (image : img x = d) (a buffer : List Byte) (ofs n : Nat) (length : d.length = (ofs + n : Nat))
    (short : a.length ≤ ofs + n) (padded : ∀ i < ofs + n, fileByte d s.device i = a.getD i 0) :
    ∃ mem, (writeLoop d buffer n n ofs 0).exec s = ((n : Int),⟨s.vars,mem⟩) ∧
      Layout reserved owner img ⟨s.vars,mem⟩ ∧ Ready reserved dirty ⟨s.vars,mem⟩ ∧
      Aside reserved dirty owner img x true s ⟨s.vars,mem⟩ ∧ mem x = s.device x ∧
      contents d mem = arrayWrite a buffer ofs n ∧ SameTree d s.device mem := by
  subst image
  have limit := layout.limit x owns
  have total : (img x).length.toNat = ofs + n := by omega
  obtain ⟨mem,run,written⟩ := writeLoop_spec (img x) (img x).length.toNat (by omega) (by omega) buffer _ n n ofs 0 s
    (layout.map owns) (layout.present owns) (Nat.le_refl _) (by omega)
  rw [Nat.zero_add] at run
  obtain ⟨after,ready',aside,own,bytes,tree⟩ := write_inside layout ready owns (by omega) written
  refine ⟨mem,run,after,ready',aside,own,
    bytes.trans (arrayWrite_padded _ _ _ _ _ short (by simpa using total) ?_),tree⟩
  intro i inside
  rw [getD_contents,if_pos (by omega)]
  exact padded i inside

/-- `inode_write_at` past the end of the file. -/
theorem writeStep_long_image {write : Writer} (isWrite : IsWrite write) (layout : Layout reserved owner img s)
    (ready : Ready reserved dirty s) (origin : reserved 0) (owns : owner x) (holds : Holds img s p x inode)
    (buffer : List Byte) (ofs n : Nat) (bound : ofs + n < 2147483648) (beyond : (img x).length < (ofs + n : Nat)) :
    ∃ done t d, (inodeWriteAtStep write p buffer n ofs).exec s =
        (if done = true ∧ ofs + n ≤ 8517120 then (n : Int) else 0,t) ∧
      WriteOutcome reserved dirty owner img s t p x buffer ofs n done d ∧
      WriteImage reserved owner img s t x buffer ofs n done d := by
  have natural := layout.natural x owns
  have sum := i32_sum ofs n bound
  have last : (byteToSector (img x) (i32 (i32 ((ofs : Int) + n) - 1))).exec s = (noSector,s) := by
    apply exec_byteToSector_beyond
    rw [sum,i32_of_bounds _ (by omega) (by omega)]
    omega
  have step := exec_writeStep_beyond write holds buffer n ofs last
  rw [sum] at step
  obtain ⟨done,run,result⟩ := inodeReserve_spec isWrite ready.within s (img x) ((ofs + n : Nat) : Int) ready
    (fun y taken => Or.inl taken) (layout.held ready) (layout.map owns) (by omega)
  have fits : decide (bytesToSectors ((ofs + n : Nat) : Int) ≤ 16635) = decide (ofs + n ≤ 8517120) := by
    rw [decide_eq_decide,bytesToSectors_le _ (by omega) (by omega)]
    omega
  have wanted : need (img x) s.device (ofs + n) =
      missing (img x) s.device (inodeReach (bytesToSectors ((ofs + n : Nat) : Int))) := if_neg (by omega)
  rw [fits] at result
  generalize reserve : (inodeReserve write (img x) ((ofs + n : Nat) : Int)).exec s = outcome at run result
  obtain ⟨⟨found,d⟩,t⟩ := outcome
  rw [exec_inodeExtend write holds _ found d reserve] at step
  simp only at run result
  have heap := run.allocated.handles
  have holds' : Holds img t p x inode := ⟨heap ▸ holds.cell,holds.sector,holds.data,holds.writable,heap ▸ holds.other⟩
  have marks (mem : Nat → Sector) (d : Sector) : Marks s (withData t p d mem) done := run.allocated.toMarks.congr rfl rfl rfl
  have counts (mem : Nat → Sector) (d : Sector) : Counts s (withData t p d mem) done (need (img x) s.device (ofs + n)) := by
    rw [wanted]
    exact ⟨run.allocated.count,run.allocated.short⟩
  have handles (mem : Nat → Sector) (d : Sector) :
      (withData t p d mem).vars.handles = s.vars.handles.setData p d := congrArg (Handles.setData · p d) heap
  have header (j : Nat) (high : 125 ≤ j) (low : j < 128) (_ : j ≠ 126) : d.word j = (img x).word j := by
    refine run.words j low fun k member same => ?_
    have inside : k.1 < 125 := (inodeReach_key _ k member).dom
    omega
  by_cases success : done = true ∧ ofs + n ≤ 8517120
  · obtain ⟨rfl,small⟩ := success
    rw [decide_eq_true small,Bool.and_true] at result
    subst result
    obtain ⟨extended,grown,aside,gains,padded⟩ := extend_done layout ready owns small (Int.le_of_lt beyond) run (fun _ _ => rfl)
    have header' (j : Nat) (high : 125 ≤ j) (low : j < 128) (other : j ≠ 126) :
        (d.setLength ((ofs + n : Nat) : Int)).word j = (img x).word j :=
      (word_setLength d _ j low other).trans (header j high low other)
    generalize extension : d.setLength ((ofs + n : Nat) : Int) = d' at step extended grown aside gains padded header'
    have length : d'.length = (ofs + n : Nat) := extension ▸ length_setLength d _ (by omega) (by omega)
    have other : (withData t p d' (Function.update t.device x d')).vars.handles.inode p = {inode with data := d'} :=
      holds'.setData_eq d'
    rw [if_pos rfl,if_pos rfl,other] at step
    obtain ⟨mem,loop,after,ready',aside',own,bytes,tree⟩ := writeLoop_extended
      (s := withData t p d' (Function.update t.device x d')) (extended.congr rfl rfl)
      (Ready.setData grown (Holds.mk holds'.cell holds.sector holds.data holds.writable holds'.other) d') owns
      (Function.update_self _ _ _) (contents (img x) s.device) buffer ofs n length (by rw [length_contents]; omega) padded
    refine ⟨true,withData t p d' mem,d',?_,⟨marks _ _,counts _ _,handles _ _,ready',?_,header',
      fun _ _ => gains.rewrite tree rfl,fun _ _ => ⟨after,bytes,fun _ => ?_⟩,?_⟩,after,bytes.trans (if_pos ⟨rfl,small⟩).symm⟩
    · rw [if_pos ⟨rfl,small⟩,step,Int.toNat_natCast]
      exact loop
    · have before : Aside reserved dirty owner img x true s (withData t p d' (Function.update t.device x d')) :=
        ⟨aside.inodes,aside.system,aside.files,aside.trees⟩
      exact before.trans aside'.image
    · exact own.trans (Function.update_self _ _ _)
    · rintro (contrary | large)
      · exact absurd contrary (by decide)
      · omega
  · have refused : found = false := by
      rw [result]
      cases done with
      | false => rfl
      | true => exact decide_eq_false fun small => success ⟨rfl,small⟩
    subst refused
    obtain ⟨after,aside,own,bytes⟩ := extend_failed layout ready origin owns run
    have length : d.length = (img x).length := by
      refine congrArg (fun w : Nat => i32 w) (run.words 126 (by decide) fun k member same => ?_)
      have inside : k.1 < 125 := (inodeReach_key _ k member).dom
      omega
    obtain ⟨after',bytes'⟩ := extend_failed_image layout ready owns run length
    have ready' := Ready.setData run.ready holds' d
    refine ⟨done,withData t p d t.device,d,?_,⟨marks _ _,counts _ _,handles _ _,ready',
      ⟨aside.inodes,aside.system,aside.files,aside.trees⟩,header,fun finished small => absurd ⟨finished,small⟩ success,
      fun finished small => absurd ⟨finished,small⟩ success,
      fun _ => ⟨after.congr rfl rfl,bytes,own⟩⟩,after'.congr rfl rfl,bytes'.trans (if_neg success).symm⟩
    rw [if_neg success,step]
    rfl

/-- `inode_write_at` of at least one byte at a natural offset. -/
theorem writeStep_image {write : Writer} (isWrite : IsWrite write) (layout : Layout reserved owner img s)
    (ready : Ready reserved dirty s) (origin : reserved 0) (owns : owner x) (holds : Holds img s p x inode)
    (buffer : List Byte) (ofs n : Nat) (some : 0 < n) (bound : ofs + n < 2147483648) :
    ∃ done t d, (inodeWriteAtStep write p buffer n ofs).exec s =
        (if done = true ∧ ofs + n ≤ 8517120 then (n : Int) else 0,t) ∧
      WriteOutcome reserved dirty owner img s t p x buffer ofs n done d ∧
      WriteImage reserved owner img s t x buffer ofs n done d := by
  rcases Int.lt_or_le (img x).length (ofs + n : Nat) with beyond | inside
  · exact writeStep_long_image isWrite layout ready origin owns holds buffer ofs n bound beyond
  · obtain ⟨mem,run,outcome,-⟩ := writeStep_short write layout ready owns holds buffer ofs n some inside
    have limit := layout.limit x owns
    have small : ofs + n ≤ 8517120 := by omega
    obtain ⟨after,bytes,-⟩ := outcome.written rfl small
    exact ⟨true,⟨s.vars,mem⟩,img x,by rw [if_pos ⟨rfl,small⟩]; exact run,outcome,after,
      bytes.trans (if_pos ⟨rfl,small⟩).symm⟩

theorem writeStep_spec {write : Writer} (isWrite : IsWrite write) (layout : Layout reserved owner img s)
    (ready : Ready reserved dirty s) (origin : reserved 0) (owns : owner x) (holds : Holds img s p x inode)
    (buffer : List Byte) (ofs n : Nat) (some : 0 < n) (bound : ofs + n < 2147483648) :
    ∃ done t d, (inodeWriteAtStep write p buffer n ofs).exec s =
        (if done = true ∧ ofs + n ≤ 8517120 then (n : Int) else 0,t) ∧
      WriteOutcome reserved dirty owner img s t p x buffer ofs n done d := by
  obtain ⟨done,t,d,run,outcome,-⟩ := writeStep_image isWrite layout ready origin owns holds buffer ofs n some bound
  exact ⟨done,t,d,run,outcome⟩

/-- Whether a write was complete. -/
theorem complete_write (done : Bool) (fits : Prop) [Decidable fits] (n : Nat) (some : 0 < n) :
    ((if done = true ∧ fits then (n : Int) else 0) == (n : Int)) = (done && decide fits) := by
  by_cases success : done = true ∧ fits
  · rw [if_pos success,success.1,decide_eq_true success.2,beq_self_eq_true,Bool.true_and]
  · have refused : (done && decide fits) = false := by
      rw [Bool.and_eq_false_iff,decide_eq_false_iff_not]
      cases done with
      | false => exact Or.inl rfl
      | true => exact Or.inr fun small => success ⟨rfl,small⟩
    rw [if_neg success,refused,beq_eq_false_iff_ne]
    omega

end
end MyShell.FS
