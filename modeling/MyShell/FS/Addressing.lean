import MyShell.FS.Partition

/-! The byte of the image at which a sector of the file system is read and written: block.c over
partition.c over ide.c. Sector numbers and the product in ide.c are 32 bits wide. -/
namespace MyShell.FS

/-- `ide_read` and `ide_write` seek there. -/
def ideAccess (secNo : Nat) : Option Nat := some (secNo * 512 % 4294967296)

/-- `block_read` and `block_write`. The operation of the device is not called for a sector at
which `check_sector` panics. -/
def blockAccess (size : Nat) (operation : Nat → Option Nat) (sector : Nat) : Option Nat :=
  if size ≤ sector then none else operation sector

/-- `partition_read` and `partition_write`, on the disk `block`. -/
def partitionAccess (block : Block) (p : Partition) (sector : Nat) : Option Nat :=
  blockAccess block.size ideAccess ((p.start + sector + 1) % 4294967296)

/-- What `fs_device` may be: a disk, or a partition on one that `found_partition` accepted. -/
inductive FsDevice
  | disk (capacity : Nat) (representable : capacity < 4294967296)
  | partition (block : Block) (p : Partition) (representable : block.size < 4294967296 ∧ p.size < 4294967296)
    (accepted : foundPartition block p.start p.size p.partNr = [p])

namespace FsDevice

def size : FsDevice → Nat
  | disk capacity _ => capacity
  | partition _ p _ _ => p.size

def access : FsDevice → Nat → Option Nat
  | disk capacity _, sector => blockAccess capacity ideAccess sector
  | partition block p _ _, sector => blockAccess p.size (partitionAccess block p) sector

/-- The sector of the disk that a sector of the file system is. -/
def absolute : FsDevice → Nat → Nat
  | disk _ _, sector => sector
  | partition _ p _ _, sector => p.start + sector + 1

def capacity : FsDevice → Nat
  | disk capacity _ => capacity
  | partition block _ _ _ => block.size

def start : FsDevice → Nat
  | disk _ _ => 0
  | partition _ p _ _ => p.start

/-- Sectors of the file system do not alias. -/
structure Addressed (device : FsDevice) : Prop where
  exact : ∀ s, s + 1 < device.size → device.access s = some (512 * device.absolute s)
  injective : ∀ s t offset, s + 1 < device.size → t + 1 < device.size → device.access s = some offset →
    device.access t = some offset → s = t
  onDisk : ∀ s offset, s + 1 < device.size → device.access s = some offset → offset + 512 ≤ 512 * device.capacity
  inside : ∀ s offset, s + 1 < device.size → device.access s = some offset →
    512 * device.start ≤ offset ∧ offset + 512 ≤ 512 * (device.start + device.size)

/-- All sectors of the file system are in the first 4 GiB of the disk. -/
def Low : FsDevice → Prop
  | disk capacity _ => capacity ≤ 8388609
  | partition _ p _ _ => p.size ≤ 1 ∨ p.start + p.size ≤ 8388608

end FsDevice

/-- Neither the start of the partition nor its end wraps around. -/
theorem partition_within {block : Block} {p : Partition} (disk : block.size < 4294967296) (size : p.size < 4294967296)
    (accepted : foundPartition block p.start p.size p.partNr = [p]) :
    p.start < block.size ∧ p.start + p.size ≤ block.size := by
  unfold foundPartition at accepted
  split at accepted
  · exact absurd accepted.symm (List.cons_ne_nil _ _)
  · split at accepted
    · exact absurd accepted.symm (List.cons_ne_nil _ _)
    · omega

namespace FsDevice
variable {device : FsDevice} {s : Nat}

/-- The sectors of the file system are on the device. -/
theorem absolute_bounds (device : FsDevice) (inside : s + 1 < device.size) :
    device.start ≤ device.absolute s ∧ device.absolute s < device.start + device.size ∧
      device.start + device.size ≤ device.capacity := by
  cases device with
  | disk capacity representable =>
    change s + 1 < capacity at inside
    change 0 ≤ s ∧ s < 0 + capacity ∧ 0 + capacity ≤ capacity
    omega
  | partition block p representable accepted =>
    have within := partition_within representable.1 representable.2 accepted
    change s + 1 < p.size at inside
    change p.start ≤ p.start + s + 1 ∧ p.start + s + 1 < p.start + p.size ∧ p.start + p.size ≤ block.size
    omega

/-- No check fails and no sum wraps around. Only the product does. -/
theorem access_eq (device : FsDevice) (inside : s + 1 < device.size) :
    device.access s = some (512 * device.absolute s % 4294967296) := by
  cases device with
  | disk capacity representable =>
    change s + 1 < capacity at inside
    change blockAccess capacity ideAccess s = some (512 * s % 4294967296)
    unfold blockAccess ideAccess
    rw [if_neg (by omega),Nat.mul_comm]
  | partition block p representable accepted =>
    have within := partition_within representable.1 representable.2 accepted
    change s + 1 < p.size at inside
    change blockAccess p.size (partitionAccess block p) s = some (512 * (p.start + s + 1) % 4294967296)
    have sum : (p.start + s + 1) % 4294967296 = p.start + s + 1 := Nat.mod_eq_of_lt (by omega)
    unfold partitionAccess blockAccess ideAccess
    simp only [sum]
    rw [if_neg (by omega),if_neg (by omega),Nat.mul_comm]

theorem absolute_injective (device : FsDevice) {t : Nat} (same : device.absolute s = device.absolute t) : s = t := by
  cases device with
  | disk => exact same
  | partition block p =>
    change p.start + s + 1 = p.start + t + 1 at same
    omega

theorem low_iff (device : FsDevice) : device.Low ↔ ∀ s, s + 1 < device.size → device.absolute s < 8388608 := by
  cases device with
  | disk capacity representable =>
    change capacity ≤ 8388609 ↔ ∀ s, s + 1 < capacity → s < 8388608
    refine ⟨fun low s inside => by omega,fun low => ?_⟩
    by_contra high
    exact absurd (low 8388608 (by omega)) (Nat.lt_irrefl _)
  | partition block p representable accepted =>
    change p.size ≤ 1 ∨ p.start + p.size ≤ 8388608 ↔ ∀ s, s + 1 < p.size → p.start + s + 1 < 8388608
    refine ⟨fun low s inside => by omega,fun low => ?_⟩
    by_cases small : p.size ≤ 1
    · exact Or.inl small
    · have last := low (p.size - 2) (by omega)
      omega

theorem addressed_iff (device : FsDevice) : device.Addressed ↔ device.Low := by
  rw [low_iff]
  refine ⟨fun addressed s inside => ?_,fun low => ?_⟩
  · have exact := addressed.exact s inside
    rw [access_eq device inside] at exact
    have product := Option.some.inj exact
    omega
  · have exact (s : Nat) (inside : s + 1 < device.size) : device.access s = some (512 * device.absolute s) := by
      have small := low s inside
      rw [access_eq device inside,Nat.mod_eq_of_lt (by omega)]
    have offset_eq (s offset : Nat) (inside : s + 1 < device.size) (access : device.access s = some offset) :
        offset = 512 * device.absolute s := Option.some.inj (access.symm.trans (exact s inside))
    refine ⟨exact,fun s t offset insideS insideT accessS accessT => ?_,fun s offset inside access => ?_,
      fun s offset inside access => ?_⟩
    · have same := (offset_eq s offset insideS accessS).symm.trans (offset_eq t offset insideT accessT)
      exact absolute_injective device (by omega)
    · have bounds := absolute_bounds device inside
      rw [offset_eq s offset inside access]
      omega
    · have bounds := absolute_bounds device inside
      rw [offset_eq s offset inside access]
      omega

/-- On a disk of 8388610 sectors the sector 8388608 is read at the first byte of the disk. -/
theorem addressing_wraps : ¬ ∀ device : FsDevice, device.Addressed := by
  intro all
  have exact := (all (disk 8388610 (by decide))).exact 8388608 (by decide)
  exact absurd exact (by decide)

end FsDevice

end MyShell.FS
