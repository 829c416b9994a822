import MyShell.FS.BlockMap

/-! The loops of `inode_read_at` and `inode_write_at` inside a file whose blocks are
present: what they deliver and which bytes they change. -/
namespace MyShell.FS
open BlockProgram PointerForest

/-- The pass of a transfer at `ofs` in a file of `length` bytes. -/
def chunk (length size ofs : Nat) : Nat := min size (min (length - ofs) (512 - ofs % 512))

theorem sectorOfs_eq (ofs : Nat) : (ofs : Int).tmod 512 = (ofs % 512 : Nat) := rfl

theorem chunkSize_eq (d : Sector) (length size ofs : Nat) (total : d.length = length) (inside : ofs ≤ length) :
    chunkSize d size ofs = chunk length size ofs := by
  have small : ofs % 512 < 512 := Nat.mod_lt _ (by decide)
  simp only [chunkSize,chunk,total,sectorOfs_eq]
  split <;> split <;> omega

theorem chunk_pos (length size ofs : Nat) (wanted : 0 < size) (inside : ofs < length) : 0 < chunk length size ofs := by
  have small : ofs % 512 < 512 := Nat.mod_lt _ (by decide)
  unfold chunk
  omega

theorem chunkSize_stop (d : Sector) (length size ofs : Nat) (total : d.length = length)
    (stop : size = 0 ∨ length ≤ ofs) : chunkSize d size ofs ≤ 0 := by
  simp only [chunkSize,total]
  split <;> split <;> omega

theorem slice_chunk (d : Sector) (mem : Nat → Sector) (ofs n : Nat) (bound : ofs % 512 + n ≤ 512) :
    (mem (dataSector d mem (ofs / 512))).slice (ofs % 512) n = fileBytes d mem ofs n := by
  unfold Sector.slice fileBytes fileByte
  apply List.map_congr_left
  intro i member
  have small := List.mem_range.mp member
  rw [show (ofs + i) / 512 = ofs / 512 by omega,show (ofs + i) % 512 = ofs % 512 + i by omega]

theorem readLoop_spec (d : Sector) (length : Nat) (s : Volume) (total : d.length = length)
    (limit : length ≤ 8517120) (present : Present d s.device length) (fuel size ofs : Nat) (buffer : List Byte)
    (enough : size ≤ fuel) :
    (readLoop d fuel size ofs buffer).exec s =
      (buffer ++ fileBytes d s.device ofs (min size (length - ofs)),s) := by
  induction fuel generalizing size ofs buffer with
  | zero =>
    rw [show min size (length - ofs) = 0 by omega]
    simp [readLoop,fileBytes]
  | succ fuel ih =>
    by_cases stop : size = 0 ∨ length ≤ ofs
    · rw [readLoop,if_pos (chunkSize_stop d length size ofs total stop),
        show min size (length - ofs) = 0 by omega]
      simp [fileBytes]
    · have inside : ofs < length := by omega
      have positive := chunk_pos length size ofs (by omega) inside
      have bound : chunk length size ofs ≤ size ∧ chunk length size ofs ≤ length - ofs ∧
          ofs % 512 + chunk length size ofs ≤ 512 := by
        have small : ofs % 512 < 512 := Nat.mod_lt _ (by decide)
        unfold chunk
        omega
      rw [readLoop,chunkSize_eq d length size ofs total inside.le]
      generalize chunk length size ofs = n at positive bound
      rw [if_neg (by omega)]
      simp only [Task.exec_bind,exec_byteToSector d ofs length s total limit present inside,exec_bufferRead]
      rw [show (size : Int) - n = (size - n : Nat) by omega,show (ofs : Int) + n = (ofs + n : Nat) by omega,
        ih (size - n) (ofs + n) _ (by omega),sectorOfs_eq,Int.toNat_natCast,
        Int.toNat_natCast,slice_chunk d s.device ofs n bound.2.2,List.append_assoc,fileBytes_append,
        show n + min (size - n) (length - (ofs + n)) = min size (length - ofs) by omega]

/-- The bytes from `start` on in the buffer went to `[ofs, ofs + n)` of the file, and
nothing else changed. -/
structure Written (d : Sector) (mem mem' : Nat → Sector) (buffer : List Byte) (start ofs n : Nat) : Prop where
  frame : ∀ x, (∀ k, ofs / 512 ≤ k → 512*k < ofs + n → dataSector d mem k ≠ x) → mem' x = mem x
  bytes : ∀ i < 8517120, dataSector d mem (i / 512) ≠ 0 →
    (mem' (dataSector d mem (i / 512))).byte (i % 512) =
      if ofs ≤ i ∧ i < ofs + n then buffer.getD (start + (i - ofs)) 0
      else (mem (dataSector d mem (i / 512))).byte (i % 512)

section
variable {reserved : Nat → Prop} {d : Sector} {mem mem' : Nat → Sector} {used : Nat → Prop}
variable {buffer : List Byte} {start ofs n : Nat}

/-- Data written to the file leaves its block map alone. -/
theorem Written.inner (written : Written d mem mem' buffer start ofs n)
    (sound : SoundMap reserved ⟨mem,used⟩ d) (limit : ofs + n ≤ 8517120) (present : Present d mem (ofs + n))
    (x : Nat) (inner : Inner d mem x) : mem' x = mem x := by
  apply written.frame
  intro k _ below same
  exact sound.dataSector_outer k (by omega) (present k below) (same ▸ inner)

theorem Written.sound (written : Written d mem mem' buffer start ofs n)
    (sound : SoundMap reserved ⟨mem,used⟩ d) (limit : ofs + n ≤ 8517120) (present : Present d mem (ofs + n)) :
    SoundMap reserved ⟨mem',used⟩ d :=
  sound.rewrite mem' fun x _ _ _ ⟨pointer,path,inner⟩ => written.inner sound limit present x ⟨pointer,path,inner⟩

theorem Written.dataSector_eq (written : Written d mem mem' buffer start ofs n)
    (sound : SoundMap reserved ⟨mem,used⟩ d) (limit : ofs + n ≤ 8517120) (present : Present d mem (ofs + n))
    (k : Nat) (inside : k < 16635) : dataSector d mem' k = dataSector d mem k :=
  SoundMap.dataSector_eq sound mem' (fun x _ _ _ inner => written.inner sound limit present x inner) k inside

end

theorem Written.append {d : Sector} {mem mem₁ mem₂ : Nat → Sector} {buffer : List Byte} {start ofs m n : Nat}
    (same : ∀ k < 16635, dataSector d mem₁ k = dataSector d mem k) (limit : ofs + m + n ≤ 8517120)
    (first : Written d mem mem₁ buffer start ofs m) (second : Written d mem₁ mem₂ buffer (start + m) (ofs + m) n) :
    Written d mem mem₂ buffer start ofs (m + n) := by
  constructor
  · intro x outside
    rw [second.frame x,first.frame x]
    · exact fun k low high => outside k low (by omega)
    · intro k low high
      rw [same k (by omega)]
      exact outside k (by omega) (by omega)
  · intro i bound present
    have block := same (i / 512) (by omega)
    have later := second.bytes i bound (block ▸ present)
    rw [block] at later
    rw [later,first.bytes i bound present]
    by_cases after : ofs + m ≤ i ∧ i < ofs + m + n
    · rw [if_pos after,if_pos (by omega),show start + m + (i - (ofs + m)) = start + (i - ofs) by omega]
    · rw [if_neg after]
      by_cases before : ofs ≤ i ∧ i < ofs + m
      · rw [if_pos before,if_pos (by omega)]
      · rw [if_neg before,if_neg (by omega)]

/-- One pass: a piece of one data sector. -/
theorem Written.piece {reserved : Nat → Prop} {d : Sector} {mem : Nat → Sector} {used : Nat → Prop}
    (sound : SoundMap reserved ⟨mem,used⟩ d) (buffer : List Byte) (start ofs n : Nat) (base : Sector)
    (positive : 0 < n) (bound : ofs % 512 + n ≤ 512) (limit : ofs < 8517120)
    (copied : n < 512 → base = mem (dataSector d mem (ofs / 512))) :
    Written d mem (Function.update mem (dataSector d mem (ofs / 512)) (base.splice (ofs % 512) buffer start n))
      buffer start ofs n := by
  constructor
  · intro x outside
    exact Function.update_of_ne (Ne.symm (outside (ofs / 512) (Nat.le_refl _) (by omega))) _ _
  · intro i inside here
    by_cases block : i / 512 = ofs / 512
    · rw [block,Function.update_self,Sector.byte_splice _ _ _ _ _ _ (Nat.mod_lt _ (by decide))]
      by_cases within : ofs ≤ i ∧ i < ofs + n
      · rw [if_pos within,if_pos (by omega),show i % 512 - ofs % 512 = i - ofs by omega]
      · rw [if_neg within,if_neg (by omega)]
        by_cases whole : n < 512
        · rw [copied whole]
        · omega
    · have apart : dataSector d mem (i / 512) ≠ dataSector d mem (ofs / 512) :=
        fun same => block (sound.dataSector_inj _ _ (by omega) (by omega) here same)
      rw [Function.update_of_ne apart,if_neg (by omega)]

theorem writeLoop_spec (d : Sector) (length : Nat) (total : d.length = length) (limit : length ≤ 8517120)
    (buffer : List Byte) (reserved : Nat → Prop) (fuel size ofs start : Nat) (s : Volume)
    (sound : SoundMap reserved (arena s) d) (present : Present d s.device length) (enough : size ≤ fuel)
    (inside : ofs + size ≤ length) :
    ∃ mem, (writeLoop d buffer fuel size ofs start).exec s = (((start + size : Nat) : Int),{s with device := mem}) ∧
      Written d s.device mem buffer start ofs size := by
  have nothing : Written d s.device s.device buffer start ofs 0 :=
    ⟨fun _ _ => rfl,fun i _ _ => by rw [if_neg (by omega)]⟩
  induction fuel generalizing size ofs start s with
  | zero =>
    obtain rfl : size = 0 := by omega
    exact ⟨s.device,rfl,nothing⟩
  | succ fuel ih =>
    by_cases stop : size = 0
    · subst stop
      rw [writeLoop,if_pos (chunkSize_stop d length 0 ofs total (Or.inl rfl))]
      exact ⟨s.device,rfl,nothing⟩
    · have below : ofs < length := by omega
      have positive := chunk_pos length size ofs (by omega) below
      have bound : chunk length size ofs ≤ size ∧ ofs % 512 + chunk length size ofs ≤ 512 := by
        have small : ofs % 512 < 512 := Nat.mod_lt _ (by decide)
        unfold chunk
        omega
      rw [writeLoop,chunkSize_eq d length size ofs total below.le]
      generalize chunk length size ofs = n at positive bound
      rw [if_neg (by omega)]
      have block := present (ofs / 512) (by omega)
      simp only [Task.exec_bind,exec_byteToSector d ofs length s total limit present below]
      rw [sectorOfs_eq,Int.toNat_natCast,Int.toNat_natCast,Int.toNat_natCast,
        show (size : Int) - n = (size - n : Nat) by omega,show (ofs : Int) + n = (ofs + n : Nat) by omega,
        show (start : Int) + n = (start + n : Nat) by omega]
      -- the bounce buffer: the old sector, unless the pass covers all of it
      obtain ⟨base,copied,fetched⟩ : ∃ base : Sector,
          (n < 512 → base = s.device (dataSector d s.device (ofs / 512))) ∧
          Task.exec (if ofs % 512 > 0 ∨ n < 512 - ofs % 512 then bufferRead (dataSector d s.device (ofs / 512))
            else pure Sector.zeros) s = (base,s) := by
        by_cases partially : ofs % 512 > 0 ∨ n < 512 - ofs % 512
        · exact ⟨_,fun _ => rfl,by rw [if_pos partially]; rfl⟩
        · exact ⟨.zeros,fun short => by omega,by rw [if_neg partially]; rfl⟩
      simp only [fetched,exec_bufferWrite]
      have piece := Written.piece sound buffer start ofs n base positive bound.2 (by omega) copied
      have first : Present d s.device (ofs + n) := fun k near => present k (by omega)
      have same := piece.dataSector_eq sound (by omega) first
      obtain ⟨mem,run,rest⟩ := ih (size - n) (ofs + n) (start + n)
        ⟨s.vars,Function.update s.device (dataSector d s.device (ofs / 512))
          (base.splice (ofs % 512) buffer start n)⟩
        (piece.sound sound (by omega) first) (fun k near => by rw [same k (by omega)]; exact present k near)
        (by omega) (by omega) ⟨fun _ _ => rfl,fun i _ _ => by rw [if_neg (by omega)]⟩
      refine ⟨mem,?_,?_⟩
      · rw [run,show start + n + (size - n) = start + size by omega]
      · have whole := piece.append same (by omega) rest
        rwa [show n + (size - n) = size by omega] at whole

end MyShell.FS
