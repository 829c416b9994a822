import Mathlib.Algebra.Ring.Nat
import Mathlib.Logic.Function.Basic
import Mathlib.Data.List.Basic

/-! Sectors as the 512 bytes a block device transfers, with the little-endian
32-bit numbers that the structures of inode.h and directory.h overlay on them. -/
namespace MyShell.FS

abbrev Byte := UInt8

/-- BLOCK_SECTOR_SIZE of block.h. -/
abbrev blockSectorSize : Nat := 512

@[ext] structure Sector where
  bytes : Fin blockSectorSize → Byte

/-- The four bytes of a `uint32_t`, least significant first. -/
def littleEndian (b0 b1 b2 b3 : Byte) : Nat :=
  b0.toNat + 256 * b1.toNat + 65536 * b2.toNat + 16777216 * b3.toNat

def byteOf (value index : Nat) : Byte := UInt8.ofNat (value / 256 ^ index)

theorem littleEndian_byteOf (value : Nat) (bound : value < 4294967296) :
    littleEndian (byteOf value 0) (byteOf value 1) (byteOf value 2) (byteOf value 3) = value := by
  simp only [littleEndian,byteOf,UInt8.toNat_ofNat']
  omega

theorem littleEndian_lt (b0 b1 b2 b3 : Byte) : littleEndian b0 b1 b2 b3 < 4294967296 := by
  have h0 := b0.toNat_lt
  have h1 := b1.toNat_lt
  have h2 := b2.toNat_lt
  have h3 := b3.toNat_lt
  simp only [littleEndian]
  omega

namespace Sector

def zeros : Sector := ⟨fun _ => 0⟩

def byte (s : Sector) (i : Nat) : Byte := s.bytes (Fin.ofNat blockSectorSize i)

/-- A sector from a function on byte positions. -/
def ofBytes (f : Nat → Byte) : Sector := ⟨fun i => f i.val⟩

/-- The `uint32_t` at index `k`, counted in words. -/
def word (s : Sector) (k : Nat) : Nat :=
  littleEndian (s.byte (4*k)) (s.byte (4*k+1)) (s.byte (4*k+2)) (s.byte (4*k+3))

def setWord (s : Sector) (k value : Nat) : Sector :=
  ofBytes fun i => if i / 4 = k then byteOf value (i % 4) else s.byte i

/-- `memcpy(s + ofs, buffer + start, n)`. -/
def splice (s : Sector) (ofs : Nat) (buffer : List Byte) (start n : Nat) : Sector :=
  ofBytes fun i => if ofs ≤ i ∧ i < ofs + n then buffer.getD (start + (i - ofs)) 0 else s.byte i

/-- `memcpy(target, s + ofs, n)`: the bytes copied out. -/
def slice (s : Sector) (ofs n : Nat) : List Byte := (List.range n).map fun i => s.byte (ofs + i)

@[simp] theorem byte_ofBytes (f : Nat → Byte) (i : Nat) : (ofBytes f).byte i = f (i % 512) := rfl

@[simp] theorem byte_zeros (i : Nat) : zeros.byte i = 0 := rfl

theorem ext_byte (s t : Sector) (same : ∀ i < 512, s.byte i = t.byte i) : s = t := by
  ext i
  have inside := same i.val i.isLt
  have index : Fin.ofNat blockSectorSize i.val = i := by
    apply Fin.ext
    exact Nat.mod_eq_of_lt i.isLt
  simpa only [byte,index] using congrArg UInt8.toNat inside

theorem byte_splice (s : Sector) (ofs : Nat) (buffer : List Byte) (start n i : Nat) (bound : i < 512) :
    (s.splice ofs buffer start n).byte i =
      if ofs ≤ i ∧ i < ofs + n then buffer.getD (start + (i - ofs)) 0 else s.byte i := by
  simp only [splice,byte_ofBytes,Nat.mod_eq_of_lt bound]

theorem word_zeros (k : Nat) : zeros.word k = 0 := rfl

theorem word_lt (s : Sector) (k : Nat) : s.word k < 4294967296 := littleEndian_lt _ _ _ _

theorem byte_setWord (s : Sector) (k value i : Nat) (bound : i < 512) :
    (s.setWord k value).byte i = if i / 4 = k then byteOf value (i % 4) else s.byte i := by
  simp only [setWord,byte_ofBytes,Nat.mod_eq_of_lt bound]

theorem word_setWord (s : Sector) (k value j : Nat) (inside : j < 128) (small : value < 4294967296) :
    (s.setWord k value).word j = if j = k then value else s.word j := by
  have at0 := byte_setWord s k value (4*j) (by omega)
  have at1 := byte_setWord s k value (4*j+1) (by omega)
  have at2 := byte_setWord s k value (4*j+2) (by omega)
  have at3 := byte_setWord s k value (4*j+3) (by omega)
  rw [show 4*j/4 = j by omega,show 4*j%4 = 0 by omega] at at0
  rw [show (4*j+1)/4 = j by omega,show (4*j+1)%4 = 1 by omega] at at1
  rw [show (4*j+2)/4 = j by omega,show (4*j+2)%4 = 2 by omega] at at2
  rw [show (4*j+3)/4 = j by omega,show (4*j+3)%4 = 3 by omega] at at3
  simp only [word,at0,at1,at2,at3]
  by_cases same : j = k
  · simp only [same,if_true]
    exact littleEndian_byteOf value small
  · simp only [same,if_false]

theorem byte_setWord_of_ne (s : Sector) (k value i : Nat) (bound : i < 512) (other : i / 4 ≠ k) :
    (s.setWord k value).byte i = s.byte i := by
  rw [byte_setWord s k value i bound,if_neg other]

theorem setWord_setWord (s : Sector) (k first second : Nat) : (s.setWord k first).setWord k second = s.setWord k second := by
  apply ext_byte
  intro i bound
  rw [byte_setWord _ _ _ _ bound,byte_setWord _ _ _ _ bound,byte_setWord _ _ _ _ bound]
  split <;> rfl

/-- The bytes of a word are those it was put together from. -/
theorem byteOf_word (s : Sector) (i : Nat) (bound : i < 512) : byteOf (s.word (i / 4)) (i % 4) = s.byte i := by
  obtain ⟨k,j,inside,rfl⟩ : ∃ k j, j < 4 ∧ i = 4*k+j := ⟨i / 4,i % 4,Nat.mod_lt _ (by decide),by omega⟩
  have h0 := (s.byte (4*k)).toNat_lt
  have h1 := (s.byte (4*k+1)).toNat_lt
  have h2 := (s.byte (4*k+2)).toNat_lt
  have h3 := (s.byte (4*k+3)).toNat_lt
  rw [show (4*k+j)/4 = k by omega,show (4*k+j)%4 = j by omega]
  apply UInt8.toNat_inj.mp
  simp only [byteOf,word,littleEndian,UInt8.toNat_ofNat']
  obtain rfl | rfl | rfl | rfl : j = 0 ∨ j = 1 ∨ j = 2 ∨ j = 3 := by omega
  · simp only [Nat.add_zero,Nat.pow_zero,Nat.div_one]
    omega
  · omega
  · omega
  · omega

theorem setWord_self (s : Sector) (k : Nat) : s.setWord k (s.word k) = s := by
  apply ext_byte
  intro i bound
  rw [byte_setWord _ _ _ _ bound]
  split
  · rename_i here
    rw [← here,byteOf_word s i bound]
  · rfl

@[simp] theorem length_slice (s : Sector) (ofs n : Nat) : (s.slice ofs n).length = n := by
  simp [slice]

theorem getElem?_slice (s : Sector) (ofs n i : Nat) (bound : i < n) :
    (s.slice ofs n)[i]? = some (s.byte (ofs + i)) := by
  simp [slice,bound]

end Sector
end MyShell.FS
