import MyShell.Lib.PointerForest
import MyShell.FS.Inode

/-! The block map of an inode as a forest: 125 pointers, of which the first 123 are
data blocks, the next one leads to them over one block and the last over two. -/
namespace MyShell.FS
open BlockProgram PointerForest

def blocks : Shape Sector := ⟨Sector.word,Sector.zeros,128,Sector.word_zeros⟩

/-- Blocks between the pointer and the data. -/
def height (pointer : Nat) : Nat := if pointer < 123 then 0 else if pointer = 123 then 1 else 2

def isPointer (pointer : Nat) : Prop := pointer < 125

/-- The pointer and the path that lead to a data block. -/
def dataPath (k : Nat) : Nat × List Nat :=
  if k < 123 then (k,[]) else if k < 251 then (123,[k - 123]) else (124,[(k - 251) / 128,(k - 251) % 128])

/-- The sector of data block `k` of the inode `d`, or 0. -/
def dataSector (d : Sector) (mem : Nat → Sector) (k : Nat) : Nat :=
  node blocks mem (d.word (dataPath k).1) (dataPath k).2

/-- The byte at a position of the file, where its block is present. -/
def fileByte (d : Sector) (mem : Nat → Sector) (i : Nat) : Byte := (mem (dataSector d mem (i / 512))).byte (i % 512)

def fileBytes (d : Sector) (mem : Nat → Sector) (ofs n : Nat) : List Byte :=
  (List.range n).map fun i => fileByte d mem (ofs + i)

def arena (s : Volume) : Arena Sector := ⟨s.device,fun x => bitmapTest s.vars.freeMap x = true⟩

/-- The blocks of the first `length` bytes are there. -/
def Present (d : Sector) (mem : Nat → Sector) (length : Nat) : Prop :=
  ∀ k, 512*k < length → dataSector d mem k ≠ 0

/-- The block map of one inode on its own. -/
abbrev SoundMap (reserved : Nat → Prop) (a : Arena Sector) (d : Sector) : Prop :=
  Sound blocks height isPointer reserved a d.word

/-- A block of pointers of the inode. -/
def Inner (d : Sector) (mem : Nat → Sector) (x : Nat) : Prop :=
  ∃ pointer path, Key blocks height isPointer pointer path ∧ path.length < height pointer ∧
    node blocks mem (d.word pointer) path = x

/-- The block map of the inode is the same in both memories. -/
def SameTree (d : Sector) (mem mem' : Nat → Sector) : Prop :=
  ∀ pointer path, Key blocks height isPointer pointer path →
    node blocks mem' (d.word pointer) path = node blocks mem (d.word pointer) path

theorem dataPath_key (k : Nat) (inside : k < 16635) :
    Key blocks height isPointer (dataPath k).1 (dataPath k).2 ∧ (dataPath k).2.length = height (dataPath k).1 := by
  unfold dataPath
  by_cases direct : k < 123
  · rw [if_pos direct]
    refine ⟨⟨?_,?_,?_⟩,?_⟩ <;> simp [isPointer,height,direct]
    omega
  · by_cases single : k < 251
    · rw [if_neg direct,if_pos single]
      refine ⟨⟨?_,?_,?_⟩,?_⟩ <;> simp [isPointer,height,blocks]
      omega
    · rw [if_neg direct,if_neg single]
      refine ⟨⟨?_,?_,?_⟩,?_⟩ <;> simp [isPointer,height,blocks]
      omega

theorem dataPath_injective (j k : Nat) (same : dataPath j = dataPath k) : j = k := by
  unfold dataPath at same
  split at same <;> split at same <;> (try split at same) <;> (try split at same) <;>
    simp only [Prod.mk.injEq,List.cons.injEq,and_true,reduceCtorEq,and_false] at same <;> omega

theorem exec_indexToSector (d : Sector) (k : Nat) (s : Volume) (inside : k < 16635)
    (present : dataSector d s.device k ≠ 0) :
    (indexToSector d k).exec s = (dataSector d s.device k,s) := by
  unfold indexToSector
  unfold dataSector dataPath at present ⊢
  by_cases direct : k < 123
  · simp only [if_pos direct] at present ⊢
    rfl
  · by_cases single : k < 251
    · simp only [if_neg direct,if_pos single] at present ⊢
      have above : d.word 123 ≠ 0 := by
        intro null
        rw [null,node_null] at present
        contradiction
      rw [node_cons _ _ _ _ _ above]
      rfl
    · simp only [if_neg direct,if_neg single,if_pos inside] at present ⊢
      have above : d.word 124 ≠ 0 := by
        intro null
        rw [null,node_null] at present
        contradiction
      rw [node_cons _ _ _ _ _ above] at present ⊢
      have below : blocks.word (s.device (d.word 124)) ((k - 251) / 128) ≠ 0 := by
        intro null
        rw [null,node_null] at present
        contradiction
      rw [node_cons _ _ _ _ _ below]
      rfl

theorem exec_byteToSector (d : Sector) (pos length : Nat) (s : Volume) (size : d.length = length)
    (limit : length ≤ 8517120) (present : Present d s.device length) (inside : pos < length) :
    (byteToSector d pos).exec s = (dataSector d s.device (pos / 512),s) := by
  unfold byteToSector
  rw [if_pos ⟨Int.natCast_nonneg pos,by omega⟩,show ((pos : Int) / 512).toNat = pos / 512 by omega]
  exact exec_indexToSector d _ s (by omega) (present _ (by omega))

theorem exec_byteToSector_beyond (d : Sector) (pos : Int) (s : Volume) (beyond : pos < 0 ∨ d.length ≤ pos) :
    (byteToSector d pos).exec s = (noSector,s) := by
  unfold byteToSector
  rw [if_neg (by omega)]
  rfl

section
variable {reserved : Nat → Prop} {a : Arena Sector} {d : Sector}

theorem SoundMap.dataSector_inj (sound : SoundMap reserved a d) (j k : Nat) (hj : j < 16635) (hk : k < 16635)
    (present : dataSector d a.mem j ≠ 0) (same : dataSector d a.mem j = dataSector d a.mem k) : j = k := by
  have met := sound.single _ _ _ _ (dataPath_key j hj).1 (dataPath_key k hk).1 present same
  exact dataPath_injective j k (Prod.ext met.1 met.2)

theorem SoundMap.dataSector_outer (sound : SoundMap reserved a d) (k : Nat) (inside : k < 16635)
    (present : dataSector d a.mem k ≠ 0) : ¬Inner d a.mem (dataSector d a.mem k) := by
  rintro ⟨pointer,path,key,deep,same⟩
  have leaf := (dataPath_key k inside).2
  have met := sound.single _ _ _ _ (dataPath_key k inside).1 key present same.symm
  rw [met.1,met.2] at leaf
  omega

/-- The block map depends on the blocks of pointers only. -/
theorem SoundMap.node_eq (sound : SoundMap reserved a d) (mem : Nat → Sector)
    (same : ∀ x, a.used x → ¬reserved x → x ≠ 0 → Inner d a.mem x → mem x = a.mem x) (pointer : Nat)
    (path : List Nat) (key : Key blocks height isPointer pointer path) :
    node blocks mem (d.word pointer) path = node blocks a.mem (d.word pointer) path := by
  apply Sound.node_eq sound mem pointer path key
  rintro x marked free present ⟨above,upper,deep,here⟩
  exact same x marked free present ⟨pointer,above,upper,deep,here⟩

theorem SoundMap.dataSector_eq (sound : SoundMap reserved a d) (mem : Nat → Sector)
    (same : ∀ x, a.used x → ¬reserved x → x ≠ 0 → Inner d a.mem x → mem x = a.mem x) (k : Nat)
    (inside : k < 16635) : dataSector d mem k = dataSector d a.mem k :=
  sound.node_eq mem same _ _ (dataPath_key k inside).1

end

@[simp] theorem length_fileBytes (d : Sector) (mem : Nat → Sector) (ofs n : Nat) :
    (fileBytes d mem ofs n).length = n := by
  simp [fileBytes]

theorem fileBytes_append (d : Sector) (mem : Nat → Sector) (ofs m n : Nat) :
    fileBytes d mem ofs m ++ fileBytes d mem (ofs + m) n = fileBytes d mem ofs (m + n) := by
  simp only [fileBytes,List.range_add,List.map_append,List.map_map]
  congr 2
  funext i
  simp only [Function.comp,Nat.add_assoc]

end MyShell.FS
