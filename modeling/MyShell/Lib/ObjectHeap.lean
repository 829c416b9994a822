import Mathlib.Logic.Function.Basic

/-! Objects allocated and freed one at a time, reached by their address. An address
that was freed is never handed out again. -/
structure ObjectHeap (α : Type) where
  cell : Nat → Option α
  next : Nat
  fresh : ∀ address, next ≤ address → cell address = none

namespace ObjectHeap
variable {α : Type}

def empty : ObjectHeap α := ⟨fun _ => none,1,fun _ _ => rfl⟩

/-- The heap with `object` at the address `h.next`. -/
def alloc (h : ObjectHeap α) (object : α) : ObjectHeap α where
  cell := Function.update h.cell h.next (some object)
  next := h.next + 1
  fresh address above := by
    rw [Function.update_of_ne (by omega)]
    exact h.fresh address (by omega)

def free (h : ObjectHeap α) (address : Nat) : ObjectHeap α where
  cell := Function.update h.cell address none
  next := h.next
  fresh other above := by
    rw [Function.update_apply,h.fresh other above,ite_self]

def modify (h : ObjectHeap α) (address : Nat) (f : α → α) : ObjectHeap α where
  cell := Function.update h.cell address ((h.cell address).map f)
  next := h.next
  fresh other above := by
    rw [Function.update_apply]
    split
    · rename_i same
      rw [← same,h.fresh other above,Option.map_none]
    · exact h.fresh other above

/-- The object at an address; an arbitrary one where nothing is allocated. -/
def deref [Inhabited α] (h : ObjectHeap α) (address : Nat) : α := (h.cell address).getD default

theorem alloc_cell (h : ObjectHeap α) (object : α) (address : Nat) :
    (h.alloc object).cell address = if address = h.next then some object else h.cell address :=
  Function.update_apply _ _ _ _

theorem free_cell (h : ObjectHeap α) (address other : Nat) :
    (h.free address).cell other = if other = address then none else h.cell other :=
  Function.update_apply _ _ _ _

theorem modify_cell (h : ObjectHeap α) (address : Nat) (f : α → α) (other : Nat) :
    (h.modify address f).cell other = if other = address then (h.cell address).map f else h.cell other :=
  Function.update_apply _ _ _ _

@[simp] theorem alloc_next (h : ObjectHeap α) (object : α) : (h.alloc object).next = h.next + 1 := rfl

@[simp] theorem free_next (h : ObjectHeap α) (address : Nat) : (h.free address).next = h.next := rfl

@[simp] theorem modify_next (h : ObjectHeap α) (address : Nat) (f : α → α) : (h.modify address f).next = h.next := rfl

theorem deref_of_cell [Inhabited α] (h : ObjectHeap α) (address : Nat) (object : α)
    (held : h.cell address = some object) : h.deref address = object := by
  rw [deref,held,Option.getD_some]

theorem deref_modify [Inhabited α] (h : ObjectHeap α) (address : Nat) (f : α → α) (object : α)
    (held : h.cell address = some object) : (h.modify address f).deref address = f object := by
  apply deref_of_cell
  rw [modify_cell,if_pos rfl,held,Option.map_some]

theorem deref_modify_of_ne [Inhabited α] (h : ObjectHeap α) (address other : Nat) (f : α → α) (ne : other ≠ address) :
    (h.modify address f).deref other = h.deref other := by
  rw [deref,deref,modify_cell,if_neg ne]

theorem modify_self (h : ObjectHeap α) (address : Nat) (f : α → α)
    (same : (h.cell address).map f = h.cell address) : h.modify address f = h := by
  obtain ⟨cell,next,fresh⟩ := h
  simp only [modify,mk.injEq,and_true]
  rw [same,Function.update_eq_self]

/-- The address handed out next is not in use. -/
theorem next_cell (h : ObjectHeap α) : h.cell h.next = none := h.fresh h.next (Nat.le_refl _)

@[simp] theorem alloc_cell_next (h : ObjectHeap α) (object : α) : (h.alloc object).cell h.next = some object :=
  (alloc_cell h object h.next).trans (if_pos rfl)

theorem deref_alloc_of_ne [Inhabited α] (h : ObjectHeap α) (object : α) (other : Nat) (ne : other ≠ h.next) :
    (h.alloc object).deref other = h.deref other := by
  rw [deref,deref,alloc_cell,if_neg ne]

theorem deref_free_of_ne [Inhabited α] (h : ObjectHeap α) (address other : Nat) (ne : other ≠ address) :
    (h.free address).deref other = h.deref other := by
  rw [deref,deref,free_cell,if_neg ne]

/-- The objects decide what a change leaves, whatever address is next. -/
theorem modify_congr {h h' : ObjectHeap α} (same : h'.cell = h.cell) (address : Nat) (f : α → α) :
    (h'.modify address f).cell = (h.modify address f).cell := by
  simp only [modify,same]

theorem free_congr {h h' : ObjectHeap α} (same : h'.cell = h.cell) (address : Nat) :
    (h'.free address).cell = (h.free address).cell := by
  simp only [free,same]

/-- Only the object at `address` may differ. -/
def SameBut (h h' : ObjectHeap α) (address : Nat) : Prop := ∀ other, other ≠ address → h'.cell other = h.cell other

theorem SameBut.alloc (h : ObjectHeap α) (object : α) : h.SameBut (h.alloc object) h.next :=
  fun other ne => by rw [alloc_cell,if_neg ne]

theorem SameBut.modify {h h' : ObjectHeap α} {address : Nat} (same : h.SameBut h' address) (f : α → α) :
    h.SameBut (h'.modify address f) address :=
  fun other ne => by rw [modify_cell,if_neg ne,same other ne]

/-- Freeing the one object that was added leaves the objects that were there. -/
theorem SameBut.free {h h' : ObjectHeap α} {address : Nat} (same : h.SameBut h' address)
    (absent : h.cell address = none) : (h'.free address).cell = h.cell := by
  funext other
  rw [free_cell]
  split
  · rename_i here
    rw [here,absent]
  · rename_i ne
    exact same other ne

theorem SameBut.deref [Inhabited α] {h h' : ObjectHeap α} {address : Nat} (same : h.SameBut h' address) (other : Nat)
    (ne : other ≠ address) : h'.deref other = h.deref other := by
  rw [ObjectHeap.deref,ObjectHeap.deref,same other ne]

theorem lt_next (h : ObjectHeap α) (address : Nat) (object : α) (held : h.cell address = some object) :
    address < h.next := by
  by_contra above
  rw [h.fresh address (Nat.le_of_not_lt above)] at held
  contradiction

end ObjectHeap
