import MyShell.FS.Bitmap

/-! `bitmap_scan_and_flip` with the number that it returns: the first run of equal bits from a
position on, and which bits it leaves as they were. -/
namespace MyShell.FS

/-- BITMAP_ERROR of bitmap.h. -/
abbrev bitmapError : Nat := 4294967295

/-- `bitmap_scan` as a `size_t`. -/
def bitmapScanIndex (b : Bitmap) (start cnt : Nat) (value : Bool) : Nat := (bitmapScan b start cnt value).getD bitmapError

/-- `bitmap_scan_and_flip` as it tests the index. -/
def bitmapScanAndFlipIndex (b : Bitmap) (start cnt : Nat) (value : Bool) : Nat × Bitmap :=
  let idx := bitmapScanIndex b start cnt value
  if idx ≠ bitmapError then (idx,bitmapSetMultiple b idx cnt (!value)) else (idx,b)

namespace Bitmap

/-- The `cnt` bits from `i` on are inside the bitmap and have the value. -/
structure RunAt (b : Bitmap) (cnt : Nat) (value : Bool) (i : Nat) : Prop where
  inside : i + cnt ≤ b.bitCnt
  equal : ∀ j < cnt, bitmapTest b (i + j) = value

variable {b : Bitmap} {start cnt i : Nat} {value : Bool}

theorem contains_not : bitmapContains b i cnt (!value) = false ↔ ∀ j < cnt, bitmapTest b (i + j) = value := by
  unfold bitmapContains
  rw [List.any_eq_false]
  refine forall_congr' fun j => ?_
  rw [List.mem_range,beq_iff_eq]
  refine imp_congr_right fun _ => ?_
  cases bitmapTest b (i + j) <;> cases value <;> decide

theorem scan_eq_some : bitmapScan b start cnt value = some i ↔
    start ≤ i ∧ b.RunAt cnt value i ∧ ∀ k, start ≤ k → k < i → ¬b.RunAt cnt value k := by
  unfold bitmapScan
  split
  · rename_i room
    rw [List.find?_range'_eq_some]
    simp only [contains_not,List.mem_range'_1,Bool.not_eq_eq_eq_not,Bool.not_true,Bool.not_false]
    constructor
    · rintro ⟨equal,bounds,first⟩
      refine ⟨bounds.1,⟨by omega,equal⟩,fun k low high run => ?_⟩
      have other := first k low high
      rw [contains_not.mpr run.equal] at other
      exact absurd other Bool.false_ne_true
    · rintro ⟨low,run,first⟩
      have inside := run.inside
      refine ⟨run.equal,by omega,fun k from_start before => ?_⟩
      cases clear : bitmapContains b k cnt (!value) with
      | true => rfl
      | false => exact absurd ⟨by omega,contains_not.mp clear⟩ (first k from_start before)
  · rename_i crowded
    refine ⟨fun none => absurd none.symm (Option.some_ne_none _),fun found => ?_⟩
    have inside := found.2.1.inside
    omega

theorem scan_eq_none : bitmapScan b start cnt value = none ↔ ∀ i, start ≤ i → ¬b.RunAt cnt value i := by
  constructor
  · intro missed i low run
    unfold bitmapScan at missed
    have inside := run.inside
    rw [if_pos (by omega)] at missed
    have other := List.find?_eq_none.mp missed i (by rw [List.mem_range'_1]; omega)
    rw [contains_not.mpr run.equal] at other
    exact other rfl
  · intro missing
    cases found : bitmapScan b start cnt value with
    | none => rfl
    | some i =>
      obtain ⟨low,run,-⟩ := scan_eq_some.mp found
      exact absurd run (missing i low)

/-- No index is taken for BITMAP_ERROR. -/
theorem scanIndex_error (small : b.bitCnt < bitmapError) :
    bitmapScanIndex b start cnt value = bitmapError ↔ bitmapScan b start cnt value = none := by
  unfold bitmapScanIndex
  cases found : bitmapScan b start cnt value with
  | none => simp only [Option.getD_none]
  | some i =>
    have inside := (scan_eq_some.mp found).2.1.inside
    rw [Option.getD_some]
    exact ⟨fun same => by omega,fun none => absurd none (Option.some_ne_none _)⟩

/-- The first run is found and flipped, and nothing else. -/
structure FirstRunFlipped (b : Bitmap) (start cnt : Nat) (value : Bool) (result : Nat × Bitmap) : Prop where
  low : start ≤ result.1
  run : b.RunAt cnt value result.1
  least : ∀ k, start ≤ k → k < result.1 → ¬b.RunAt cnt value k
  size : result.2.bitCnt = b.bitCnt
  length : result.2.bits.length = b.bits.length
  bits : ∀ k, bitmapTest result.2 k =
    if result.1 ≤ k ∧ k < result.1 + cnt then !bitmapTest b k else bitmapTest b k

theorem bitmap_scan_and_flip_exact (b : Bitmap) (start cnt : Nat) (value : Bool)
    (packed : b.bits.length = elemCnt b.bitCnt) (small : b.bitCnt < bitmapError) :
    ((bitmapScanAndFlipIndex b start cnt value).1 = bitmapError ↔ ¬∃ i, start ≤ i ∧ b.RunAt cnt value i) ∧
      ((bitmapScanAndFlipIndex b start cnt value).1 = bitmapError → (bitmapScanAndFlipIndex b start cnt value).2 = b) ∧
      ((bitmapScanAndFlipIndex b start cnt value).1 ≠ bitmapError →
        FirstRunFlipped b start cnt value (bitmapScanAndFlipIndex b start cnt value)) := by
  have index : (bitmapScanAndFlipIndex b start cnt value).1 = bitmapScanIndex b start cnt value := by
    unfold bitmapScanAndFlipIndex
    simp only
    split <;> rfl
  have missing : bitmapScanIndex b start cnt value = bitmapError ↔ ¬∃ i, start ≤ i ∧ b.RunAt cnt value i := by
    rw [scanIndex_error small,scan_eq_none]
    exact ⟨fun none both => none _ both.choose_spec.1 both.choose_spec.2,fun none i low run => none ⟨i,low,run⟩⟩
  refine ⟨by rw [index]; exact missing,fun error => ?_,fun found => ?_⟩
  · rw [index] at error
    unfold bitmapScanAndFlipIndex
    simp only
    rw [if_neg (not_not.mpr error)]
  · rw [index] at found
    unfold bitmapScanAndFlipIndex
    simp only
    rw [if_pos found]
    have scan : bitmapScan b start cnt value = some (bitmapScanIndex b start cnt value) := by
      unfold bitmapScanIndex
      cases search : bitmapScan b start cnt value with
      | none => exact absurd ((scanIndex_error small).mpr search) found
      | some i => rfl
    obtain ⟨low,run,least⟩ := scan_eq_some.mp scan
    refine ⟨low,run,least,setMultiple_bitCnt _ _ _ _,setMultiple_length _ _ _ _,fun k => ?_⟩
    rw [test_setMultiple b packed _ _ _ _ run.inside]
    split
    · rename_i within
      have equal := run.equal (k - bitmapScanIndex b start cnt value) (by omega)
      rw [Nat.add_sub_cancel' within.1] at equal
      rw [equal]
    · rfl

/-- A run over the border of two words. -/
theorem bitmap_scan_and_flip_exact_border :
    FirstRunFlipped ⟨70,[BitVec.ofNat 64 (2^62 - 1),0]⟩ 3 4 false
      (bitmapScanAndFlipIndex ⟨70,[BitVec.ofNat 64 (2^62 - 1),0]⟩ 3 4 false) :=
  (bitmap_scan_and_flip_exact ⟨70,[BitVec.ofNat 64 (2^62 - 1),0]⟩ 3 4 false rfl (by decide)).2.2 (by decide)

end Bitmap

/-- The numbers that the file system uses are those of the scan. -/
theorem bitmapScanAndFlip_index (b : Bitmap) (start cnt : Nat) (value : Bool) (small : b.bitCnt < bitmapError) :
    bitmapScanAndFlipIndex b start cnt value =
      ((bitmapScanAndFlip b start cnt value).1.getD bitmapError,(bitmapScanAndFlip b start cnt value).2) := by
  unfold bitmapScanAndFlipIndex bitmapScanAndFlip
  cases found : bitmapScan b start cnt value with
  | none =>
    have error := (Bitmap.scanIndex_error small).mpr found
    simp only [error,ne_eq,not_true,if_false,Option.getD_none]
  | some i =>
    have index : bitmapScanIndex b start cnt value = i := by
      unfold bitmapScanIndex
      rw [found,Option.getD_some]
    have valid : i ≠ bitmapError := fun same => by
      have none := (Bitmap.scanIndex_error small).mp (index.trans same)
      rw [found] at none
      exact Option.some_ne_none _ none
    simp only [index,ne_eq,valid,not_false_eq_true,if_true,Option.getD_some]

end MyShell.FS
