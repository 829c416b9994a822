import MyShell.FS.Sector
import Mathlib.Data.List.Range

/-! The packed bitmap of bitmap.c. The bits live in 64-bit elements; the lemmas
below let the later modules reason about single bits only. -/
namespace MyShell.FS

/-- An element is an `unsigned long`, so ELEM_BITS is 64. -/
structure Bitmap where
  bitCnt : Nat
  bits : List (BitVec 64)

def elemIdx (bitIdx : Nat) : Nat := bitIdx / 64

def bitMask (bitIdx : Nat) : BitVec 64 := 1#64 <<< (bitIdx % 64)

def elemCnt (bitCnt : Nat) : Nat := (bitCnt + 64 - 1) / 64

def byteCnt (bitCnt : Nat) : Nat := 8 * elemCnt bitCnt

def bitmapSize (b : Bitmap) : Nat := b.bitCnt

def lastMask (b : Bitmap) : BitVec 64 :=
  if b.bitCnt % 64 ≠ 0 then (1#64 <<< (b.bitCnt % 64)) - 1#64 else BitVec.allOnes 64

namespace Bitmap

def elem (b : Bitmap) (idx : Nat) : BitVec 64 := b.bits.getD idx 0

end Bitmap

def bitmapMark (b : Bitmap) (bitIdx : Nat) : Bitmap :=
  {b with bits := b.bits.set (elemIdx bitIdx) (b.elem (elemIdx bitIdx) ||| bitMask bitIdx)}

def bitmapReset (b : Bitmap) (bitIdx : Nat) : Bitmap :=
  {b with bits := b.bits.set (elemIdx bitIdx) (b.elem (elemIdx bitIdx) &&& ~~~bitMask bitIdx)}

def bitmapSet (b : Bitmap) (idx : Nat) (value : Bool) : Bitmap :=
  if value then bitmapMark b idx else bitmapReset b idx

def bitmapTest (b : Bitmap) (idx : Nat) : Bool := (b.elem (elemIdx idx) &&& bitMask idx) != 0

def bitmapSetMultiple (b : Bitmap) (start : Nat) : Nat → Bool → Bitmap
  | 0, _ => b
  | cnt+1, value => bitmapSet (bitmapSetMultiple b start cnt value) (start + cnt) value

def bitmapSetAll (b : Bitmap) (value : Bool) : Bitmap := bitmapSetMultiple b 0 (bitmapSize b) value

def bitmapCreate (bitCnt : Nat) : Bitmap :=
  bitmapSetAll ⟨bitCnt,List.replicate (elemCnt bitCnt) 0⟩ false

def bitmapCount (b : Bitmap) (start cnt : Nat) (value : Bool) : Nat :=
  (List.range cnt).countP fun i => bitmapTest b (start + i) == value

def bitmapContains (b : Bitmap) (start cnt : Nat) (value : Bool) : Bool :=
  (List.range cnt).any fun i => bitmapTest b (start + i) == value

def bitmapAll (b : Bitmap) (start cnt : Nat) : Bool := !bitmapContains b start cnt false

/-- BITMAP_ERROR is `none`. -/
def bitmapScan (b : Bitmap) (start cnt : Nat) (value : Bool) : Option Nat :=
  if cnt ≤ b.bitCnt then
    (List.range' start (b.bitCnt - cnt + 1 - start)).find? fun i => !bitmapContains b i cnt (!value)
  else none

def bitmapScanAndFlip (b : Bitmap) (start cnt : Nat) (value : Bool) : Option Nat × Bitmap :=
  match bitmapScan b start cnt value with
  | some idx => (some idx,bitmapSetMultiple b idx cnt (!value))
  | none => (none,b)

/-- The elements as `bitmap_write` hands them to the file, least significant byte first. -/
def bitmapBytes (b : Bitmap) : List Byte :=
  (List.range (byteCnt b.bitCnt)).map fun i => byteOf (b.elem (i / 8)).toNat (i % 8)

/-- An element from its eight bytes. -/
def elemOfBytes (byte : Nat → Byte) : BitVec 64 :=
  BitVec.ofNat 64 ((byte 0).toNat + 256 * ((byte 1).toNat + 256 * ((byte 2).toNat + 256 * ((byte 3).toNat +
    256 * ((byte 4).toNat + 256 * ((byte 5).toNat + 256 * ((byte 6).toNat + 256 * (byte 7).toNat)))))))

/-- The elements after `bytes` were read over the front of the old ones, with the
unused bits of the last element cleared, as `bitmap_read` leaves them. -/
def bitmapLoad (b : Bitmap) (bytes : List Byte) : Bitmap :=
  let elems := (List.range (elemCnt b.bitCnt)).map fun j =>
    elemOfBytes fun k => bytes.getD (8*j+k) ((bitmapBytes b).getD (8*j+k) 0)
  if 0 < b.bitCnt then
    {b with bits := elems.set (elemCnt b.bitCnt - 1) (elems.getD (elemCnt b.bitCnt - 1) 0 &&& lastMask b)}
  else b

namespace Bitmap

/-- The element array is as long as the bits need, and its unused bits are zero. -/
structure Packed (b : Bitmap) : Prop where
  length : b.bits.length = elemCnt b.bitCnt
  unused : ∀ i, b.bitCnt ≤ i → bitmapTest b i = false

theorem bitMask_bit (i j : Nat) : (bitMask i).getLsbD j = decide (j = i % 64) := by
  have small : i % 64 < 64 := Nat.mod_lt _ (by decide)
  simp only [bitMask,BitVec.getLsbD_shiftLeft,BitVec.getLsbD_one]
  rw [Bool.eq_iff_iff]
  simp only [Bool.and_eq_true,Bool.not_eq_true',decide_eq_true_eq,decide_eq_false_iff_not]
  omega

theorem test_eq (b : Bitmap) (i : Nat) : bitmapTest b i = (b.elem (i / 64)).getLsbD (i % 64) := by
  change (b.elem (i / 64) &&& bitMask i != 0#64) = _
  cases bit : (b.elem (i / 64)).getLsbD (i % 64) with
  | false =>
    have empty : b.elem (i / 64) &&& bitMask i = 0#64 := by
      apply BitVec.eq_of_getLsbD_eq
      intro j _
      rw [BitVec.getLsbD_and,bitMask_bit,BitVec.getLsbD_zero]
      by_cases same : j = i % 64
      · rw [same,bit,Bool.false_and]
      · simp [same]
    simp [empty]
  | true =>
    have kept : b.elem (i / 64) &&& bitMask i ≠ 0#64 := by
      intro empty
      have selected := congrArg (fun w => BitVec.getLsbD w (i % 64)) empty
      simp [bitMask_bit,bit] at selected
    simpa using kept

theorem elem_set (bits : List (BitVec 64)) (cnt i j : Nat) (w : BitVec 64) (inside : i < bits.length) :
    (Bitmap.mk cnt (bits.set i w)).elem j = if j = i then w else (Bitmap.mk cnt bits).elem j := by
  simp only [elem,List.getD_eq_getElem?_getD,List.getElem?_set]
  by_cases same : i = j
  · subst same
    simp [inside]
  · simp [same,Ne.symm same]

theorem elemIdx_lt (b : Bitmap) (packed : b.bits.length = elemCnt b.bitCnt) (i : Nat) (inside : i < b.bitCnt) :
    elemIdx i < b.bits.length := by
  rw [packed]
  simp only [elemIdx,elemCnt]
  omega

theorem test_set (b : Bitmap) (packed : b.bits.length = elemCnt b.bitCnt) (i j : Nat) (value : Bool)
    (inside : i < b.bitCnt) :
    bitmapTest (bitmapSet b i value) j = if j = i then value else bitmapTest b j := by
  have bound := elemIdx_lt b packed i inside
  have index : j = i ↔ j / 64 = elemIdx i ∧ j % 64 = i % 64 := by
    unfold elemIdx
    omega
  cases value with
  | true =>
    simp only [bitmapSet,bitmapMark,if_true,test_eq]
    rw [elem_set _ _ _ _ _ bound]
    by_cases word : j / 64 = elemIdx i
    · rw [if_pos word,BitVec.getLsbD_or,bitMask_bit,word]
      by_cases bit : j % 64 = i % 64 <;> simp [index,word,bit]
    · simp [index,word,elem]
  | false =>
    simp only [bitmapSet,bitmapReset,Bool.false_eq_true,if_false,test_eq]
    rw [elem_set _ _ _ _ _ bound]
    have small : j % 64 < 64 := Nat.mod_lt _ (by decide)
    by_cases word : j / 64 = elemIdx i
    · rw [if_pos word,BitVec.getLsbD_and,BitVec.getLsbD_not,bitMask_bit,word]
      by_cases bit : j % 64 = i % 64
      · simp [index,word,bit]
      · simp only [index,word,bit,and_false,if_false,small,decide_true,decide_false,Bool.not_false,Bool.and_true]
    · simp [index,word,elem]

@[simp] theorem set_bitCnt (b : Bitmap) (i : Nat) (value : Bool) : (bitmapSet b i value).bitCnt = b.bitCnt := by
  cases value <;> rfl

@[simp] theorem set_length (b : Bitmap) (i : Nat) (value : Bool) :
    (bitmapSet b i value).bits.length = b.bits.length := by
  cases value <;> simp [bitmapSet,bitmapMark,bitmapReset]

@[simp] theorem setMultiple_bitCnt (b : Bitmap) (start cnt : Nat) (value : Bool) :
    (bitmapSetMultiple b start cnt value).bitCnt = b.bitCnt := by
  induction cnt with
  | zero => rfl
  | succ cnt ih => rw [bitmapSetMultiple,set_bitCnt,ih]

@[simp] theorem setMultiple_length (b : Bitmap) (start cnt : Nat) (value : Bool) :
    (bitmapSetMultiple b start cnt value).bits.length = b.bits.length := by
  induction cnt with
  | zero => rfl
  | succ cnt ih => rw [bitmapSetMultiple,set_length,ih]

theorem test_setMultiple (b : Bitmap) (packed : b.bits.length = elemCnt b.bitCnt) (start cnt j : Nat)
    (value : Bool) (inside : start + cnt ≤ b.bitCnt) :
    bitmapTest (bitmapSetMultiple b start cnt value) j =
      if start ≤ j ∧ j < start + cnt then value else bitmapTest b j := by
  induction cnt with
  | zero => rw [bitmapSetMultiple,if_neg (by omega)]
  | succ cnt ih =>
    rw [bitmapSetMultiple,test_set _ (by simpa using packed) _ _ _ (by simp; omega),ih (by omega)]
    by_cases last : j = start + cnt
    · rw [if_pos last,if_pos (by omega)]
    · rw [if_neg last]
      by_cases before : start ≤ j ∧ j < start + cnt
      · rw [if_pos before,if_pos (by omega)]
      · rw [if_neg before,if_neg (by omega)]

theorem setMultiple_packed (b : Bitmap) (packed : b.Packed) (start cnt : Nat) (value : Bool)
    (inside : start + cnt ≤ b.bitCnt) : (bitmapSetMultiple b start cnt value).Packed := by
  constructor
  · rw [setMultiple_length,setMultiple_bitCnt,packed.length]
  · intro i beyond
    rw [setMultiple_bitCnt] at beyond
    rw [test_setMultiple b packed.length _ _ _ _ inside,if_neg (by omega),packed.unused i beyond]

/-- Two bitmaps of one size with the same bits are the same bitmap. -/
theorem ext_test (b c : Bitmap) (packed : b.Packed) (other : c.Packed) (size : b.bitCnt = c.bitCnt)
    (bits : ∀ i < b.bitCnt, bitmapTest b i = bitmapTest c i) : b = c := by
  obtain ⟨cnt,left⟩ := b
  obtain ⟨cnt',right⟩ := c
  simp only at size
  subst size
  congr 1
  apply List.ext_getElem
  · exact packed.length.trans other.length.symm
  · intro k hl hr
    apply BitVec.eq_of_getLsbD_eq
    intro j small
    have both : bitmapTest ⟨cnt,left⟩ (64*k + j) = bitmapTest ⟨cnt,right⟩ (64*k + j) := by
      by_cases inside : 64*k + j < cnt
      · exact bits _ inside
      · rw [packed.unused _ (Nat.le_of_not_lt inside),other.unused _ (Nat.le_of_not_lt inside)]
    rw [test_eq,test_eq,show (64*k + j) / 64 = k by omega,show (64*k + j) % 64 = j by omega] at both
    simpa [elem,List.getD_eq_getElem?_getD,hl,hr] using both

theorem create_packed (bitCnt : Nat) : (bitmapCreate bitCnt).Packed := by
  have blank : (Bitmap.mk bitCnt (List.replicate (elemCnt bitCnt) 0)).Packed := by
    refine ⟨List.length_replicate,fun i _ => ?_⟩
    rw [test_eq]
    simp only [elem,List.getD_eq_getElem?_getD,List.getElem?_replicate]
    split <;> simp
  exact setMultiple_packed _ blank 0 bitCnt false (by simp)

theorem create_test (bitCnt i : Nat) : bitmapTest (bitmapCreate bitCnt) i = false := by
  by_cases inside : i < bitCnt
  · unfold bitmapCreate bitmapSetAll bitmapSize
    rw [test_setMultiple _ List.length_replicate _ _ _ _ (by simp)]
    exact if_pos ⟨Nat.zero_le i,by simpa using inside⟩
  · exact (create_packed bitCnt).unused i (by simpa [bitmapCreate,bitmapSetAll] using inside)

@[simp] theorem create_bitCnt (bitCnt : Nat) : (bitmapCreate bitCnt).bitCnt = bitCnt := by
  simp [bitmapCreate,bitmapSetAll]

theorem set_packed (b : Bitmap) (packed : b.Packed) (i : Nat) (value : Bool) (inside : i < b.bitCnt) :
    (bitmapSet b i value).Packed := setMultiple_packed b packed i 1 value inside

theorem all_one (b : Bitmap) (i : Nat) : bitmapAll b i 1 = bitmapTest b i := by
  simp [bitmapAll,bitmapContains]

/-- A scan for one clear bit. -/
theorem scan_some (b : Bitmap) (i : Nat) (found : bitmapScan b 0 1 false = some i) :
    i < b.bitCnt ∧ bitmapTest b i = false := by
  unfold bitmapScan at found
  split at found
  · rename_i room
    have clear := List.find?_some found
    have member := List.mem_of_find?_eq_some found
    simp only [List.mem_range'_1] at member
    refine ⟨by omega,?_⟩
    simpa [bitmapContains] using clear
  · contradiction

/-- First fit: the bits before the one found are set. -/
theorem scan_first (b : Bitmap) (i : Nat) (found : bitmapScan b 0 1 false = some i) (j : Nat) (before : j < i) :
    bitmapTest b j = true := by
  unfold bitmapScan at found
  split at found
  · have earlier := (List.find?_range'_eq_some.mp found).2.2 j (Nat.zero_le j) before
    simpa [bitmapContains] using earlier
  · exact absurd found.symm (Option.some_ne_none _)

/-- A scan for a run of clear bits. -/
theorem scan_clear (b : Bitmap) (start cnt i : Nat) (found : bitmapScan b start cnt false = some i) (j : Nat)
    (inside : j < cnt) : bitmapTest b (i + j) = false := by
  unfold bitmapScan at found
  split at found
  · have clear := List.find?_some found
    simp only [bitmapContains,Bool.not_eq_true',List.any_eq_false,List.mem_range,Bool.not_false,beq_true] at clear
    exact Bool.not_eq_true _ ▸ clear j inside
  · exact absurd found.symm (Option.some_ne_none _)

theorem scan_none (b : Bitmap) (missed : bitmapScan b 0 1 false = none) (i : Nat) (inside : i < b.bitCnt) :
    bitmapTest b i = true := by
  unfold bitmapScan at missed
  rw [if_pos (by omega)] at missed
  have marked := List.find?_eq_none.mp missed i (by simp only [List.mem_range'_1]; omega)
  simpa [bitmapContains] using marked

/-- The clear bits, as `num_free_sectors` counts them. -/
def clearCount (b : Bitmap) : Nat := bitmapCount b 0 (bitmapSize b) false

theorem countP_flip (before after : Nat → Bool) (i : Nat) (one : before i = true) (none : after i = false)
    (same : ∀ j, j ≠ i → after j = before j) (n : Nat) :
    (List.range n).countP after + (if i < n then 1 else 0) = (List.range n).countP before := by
  induction n with
  | zero => rfl
  | succ n ih =>
    simp only [List.range_succ,List.countP_append,List.countP_cons,List.countP_nil]
    by_cases here : n = i
    · subst here
      rw [one,none] at *
      simp only [Nat.lt_irrefl,if_false] at ih
      simp [ih]
    · rw [same n here]
      simp only [show (i < n + 1) = (i < n) by simp; omega]
      omega

theorem clearCount_mark (b : Bitmap) (packed : b.bits.length = elemCnt b.bitCnt) (i : Nat)
    (inside : i < b.bitCnt) (clear : bitmapTest b i = false) :
    (bitmapSet b i true).clearCount + 1 = b.clearCount := by
  have flipped := countP_flip (fun j => bitmapTest b (0 + j) == false)
    (fun j => bitmapTest (bitmapSet b i true) (0 + j) == false) i (by simp [clear])
    (by simp [test_set b packed i i true inside])
    (fun j ne => by simp [test_set b packed i _ true inside,ne]) b.bitCnt
  rw [if_pos inside] at flipped
  simpa [clearCount,bitmapCount,bitmapSize] using flipped

theorem clearCount_reset (b : Bitmap) (packed : b.bits.length = elemCnt b.bitCnt) (i : Nat)
    (inside : i < b.bitCnt) (marked : bitmapTest b i = true) :
    (bitmapSet b i false).clearCount = b.clearCount + 1 := by
  have flipped := countP_flip (fun j => bitmapTest (bitmapSet b i false) (0 + j) == false)
    (fun j => bitmapTest b (0 + j) == false) i (by simp [test_set b packed i i false inside])
    (by simp [marked]) (fun j ne => by simp [test_set b packed i _ false inside,ne]) b.bitCnt
  rw [if_pos inside] at flipped
  simpa [clearCount,bitmapCount,bitmapSize] using flipped.symm

/-- No bit is lost and as many are clear. -/
theorem eq_of_clearCount (b c : Bitmap) (packed : b.Packed) (other : c.Packed) (size : b.bitCnt = c.bitCnt)
    (mono : ∀ i, bitmapTest b i = true → bitmapTest c i = true) (count : c.clearCount = b.clearCount) : b = c := by
  have sub : ((List.range b.bitCnt).filter fun j => bitmapTest c (0 + j) == false).Sublist
      ((List.range b.bitCnt).filter fun j => bitmapTest b (0 + j) == false) := by
    refine List.monotone_filter_right _ fun i clear => ?_
    rw [beq_iff_eq] at clear ⊢
    exact Bool.eq_false_iff.mpr fun marked => Bool.false_ne_true (clear.symm.trans (mono _ marked))
  have same := sub.eq_of_length (by
    rw [← List.countP_eq_length_filter,← List.countP_eq_length_filter]
    unfold clearCount bitmapCount bitmapSize at count
    rw [← size] at count
    exact count)
  refine ext_test b c packed other size fun i inside => ?_
  have members := congrArg (i ∈ ·) same
  simp only [List.mem_filter,List.mem_range,inside,true_and,Nat.zero_add,beq_iff_eq,eq_iff_iff] at members
  cases before : bitmapTest b i with
  | true => exact (mono i before).symm
  | false => exact (members.mpr before).symm

theorem clearCount_eq_zero (b : Bitmap) (full : ∀ i < b.bitCnt, bitmapTest b i = true) : b.clearCount = 0 := by
  apply List.countP_eq_zero.mpr
  intro i member
  have inside : i < b.bitCnt := by simpa [bitmapSize] using member
  simp [full i inside]

@[simp] theorem length_bytes (b : Bitmap) : (bitmapBytes b).length = byteCnt b.bitCnt := by
  simp [bitmapBytes]

theorem getD_bytes (b : Bitmap) (i : Nat) (inside : i < byteCnt b.bitCnt) :
    (bitmapBytes b).getD i 0 = byteOf (b.elem (i / 8)).toNat (i % 8) := by
  simp [bitmapBytes,List.getD_eq_getElem?_getD,inside]

theorem elemOfBytes_byteOf (w : BitVec 64) : elemOfBytes (byteOf w.toNat) = w := by
  have bound := w.isLt
  apply BitVec.eq_of_toNat_eq
  rw [elemOfBytes,BitVec.toNat_ofNat]
  simp only [byteOf,UInt8.toNat_ofNat']
  omega

theorem elemOfBytes_congr (f g : Nat → Byte) (same : ∀ k < 8, f k = g k) : elemOfBytes f = elemOfBytes g := by
  unfold elemOfBytes
  rw [same 0 (by decide),same 1 (by decide),same 2 (by decide),same 3 (by decide),same 4 (by decide),
    same 5 (by decide),same 6 (by decide),same 7 (by decide)]

theorem lastMask_elem (b : Bitmap) (packed : b.Packed) (some : 0 < b.bitCnt) :
    b.elem (elemCnt b.bitCnt - 1) &&& lastMask b = b.elem (elemCnt b.bitCnt - 1) := by
  unfold lastMask
  split
  · rename_i part
    apply BitVec.eq_of_getLsbD_eq
    intro j small
    rw [BitVec.getLsbD_and]
    by_cases below : j < b.bitCnt % 64
    · have mask : ((1#64 <<< (b.bitCnt % 64)) - 1#64).getLsbD j = true := by
        have bound : b.bitCnt % 64 < 64 := Nat.mod_lt _ (by decide)
        rw [show (1#64 <<< (b.bitCnt % 64)) - 1#64 = BitVec.ofNat 64 (2 ^ (b.bitCnt % 64) - 1) by
          apply BitVec.eq_of_toNat_eq
          have power : 2 ^ (b.bitCnt % 64) < 2 ^ 64 := Nat.pow_lt_pow_right (by decide) bound
          have positive : 0 < 2 ^ (b.bitCnt % 64) := Nat.two_pow_pos _
          rw [BitVec.toNat_sub,BitVec.toNat_shiftLeft,BitVec.toNat_ofNat,BitVec.toNat_ofNat,Nat.shiftLeft_eq,
            Nat.mod_eq_of_lt (show 1 < 2 ^ 64 by decide),Nat.one_mul,Nat.mod_eq_of_lt power]
          omega]
        rw [BitVec.getLsbD_ofNat,Nat.testBit_two_pow_sub_one]
        simp [small,below]
      rw [mask,Bool.and_true]
    · have unused := packed.unused (64 * (elemCnt b.bitCnt - 1) + j) (by unfold elemCnt; omega)
      rw [test_eq,show (64 * (elemCnt b.bitCnt - 1) + j) / 64 = elemCnt b.bitCnt - 1 by omega,
        show (64 * (elemCnt b.bitCnt - 1) + j) % 64 = j by omega] at unused
      rw [unused,Bool.false_and]
  · exact BitVec.and_allOnes

/-- Reading back the bytes of a bitmap of the same size. -/
theorem load_bytes (b c : Bitmap) (packed : c.Packed) (size : b.bitCnt = c.bitCnt) (some : 0 < c.bitCnt) :
    bitmapLoad b (bitmapBytes c) = c := by
  obtain ⟨cnt,bits⟩ := c
  simp only at size some
  have byte (j k : Nat) (hj : j < elemCnt cnt) (hk : k < 8) :
      (bitmapBytes ⟨cnt,bits⟩).getD (8*j+k) ((bitmapBytes b).getD (8*j+k) 0) =
        byteOf ((Bitmap.mk cnt bits).elem j).toNat k := by
    have inside : 8*j+k < byteCnt cnt := by unfold byteCnt; omega
    have value := getD_bytes ⟨cnt,bits⟩ (8*j+k) inside
    rw [show (8*j+k)/8 = j by omega,show (8*j+k)%8 = k by omega] at value
    rw [← value]
    simp [List.getD_eq_getElem?_getD,inside]
  have restored : (List.range (elemCnt cnt)).map (fun j => elemOfBytes fun k =>
      (bitmapBytes ⟨cnt,bits⟩).getD (8*j+k) ((bitmapBytes b).getD (8*j+k) 0)) = bits := by
    apply List.ext_getElem
    · simpa using packed.length.symm
    · intro j left right
      have hj : j < elemCnt cnt := by simpa using left
      rw [List.getElem_map,List.getElem_range,elemOfBytes_congr _ _ (fun k hk => byte j k hj hk),elemOfBytes_byteOf]
      simp [elem,List.getD_eq_getElem?_getD,right]
  unfold bitmapLoad
  simp only [size,restored,some,if_true]
  have last := lastMask_elem ⟨cnt,bits⟩ packed some
  have mask : lastMask b = lastMask ⟨cnt,bits⟩ := by simp only [lastMask,size]
  rw [mask]
  simp only [elem] at last
  rw [last]
  simp only [Bitmap.mk.injEq,true_and]
  apply List.ext_getElem?
  intro j
  rw [List.getElem?_set]
  split
  · rename_i same
    subst same
    have inside : elemCnt cnt - 1 < bits.length := by
      rw [packed.length]
      simp only [elemCnt]
      omega
    simp [inside]
  · rfl

end Bitmap
end MyShell.FS
