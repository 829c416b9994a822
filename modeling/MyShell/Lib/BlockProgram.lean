import Mathlib.Logic.Function.Basic

/-! Programs that reach a block device only by reading and writing whole blocks.
A program is a value, so that one run of it can be compared on two devices. -/
namespace BlockProgram

variable {σ τ β γ α δ : Type}

class Device (σ : Type) (β : outParam Type) where
  read : σ → Nat → β × σ
  write : σ → Nat → β → σ

/-- The device with nothing in between: an array of blocks. -/
instance : Device (Nat → β) β where
  read device address := (device address,device)
  write device address source := Function.update device address source

inductive Program (β α : Type) where
  | done (result : α)
  | read (address : Nat) (next : β → Program β α)
  | write (address : Nat) (source : β) (next : Program β α)

namespace Program

def bind : Program β α → (α → Program β γ) → Program β γ
  | .done result, f => f result
  | .read address next, f => .read address fun block => (next block).bind f
  | .write address source next, f => .write address source (next.bind f)

instance : Monad (Program β) where
  pure := .done
  bind := .bind

def run [Device σ β] : Program β α → σ → α × σ
  | .done result, device => (result,device)
  | .read address next, device => (next (Device.read device address).1).run (Device.read device address).2
  | .write address source next, device => next.run (Device.write device address source)

theorem run_pure [Device σ β] (result : α) (device : σ) :
    (pure result : Program β α).run device = (result,device) := rfl

theorem run_bind [Device σ β] (p : Program β α) (f : α → Program β γ) (device : σ) :
    (p >>= f).run device = (f (p.run device).1).run (p.run device).2 := by
  change (p.bind f).run device = _
  induction p generalizing device with
  | done result => rfl
  | read address next ih => exact ih _ _
  | write address source next ih => exact ih _

end Program

/-- A device seen as another one: the view commutes with every transfer. -/
structure View (σ τ : Type) {β : Type} [Device σ β] [Device τ β] where
  view : σ → τ
  delivered : ∀ device address, (Device.read (view device) address).1 = (Device.read device address).1
  read : ∀ device address, (Device.read (view device) address).2 = view (Device.read device address).2
  write : ∀ device address source,
    Device.write (view device) address source = view (Device.write device address source)

/-- What a program computes and leaves behind on the device is what it computes and
leaves behind on the device it is seen as. -/
theorem run_view [Device σ β] [Device τ β] (seen : View σ τ) (p : Program β α) (device : σ) :
    p.run (seen.view device) = ((p.run device).1,seen.view (p.run device).2) := by
  induction p generalizing device with
  | done result => rfl
  | read address next ih =>
    simp only [Program.run]
    rw [seen.delivered,seen.read]
    exact ih _ _
  | write address source next ih =>
    simp only [Program.run]
    rw [seen.write]
    exact ih _

/-- What every transfer preserves, every program preserves. -/
theorem run_preserves [Device σ β] (holds : σ → Prop) (read : ∀ device address, holds device → holds (Device.read device address).2)
    (write : ∀ device address source, holds device → holds (Device.write device address source)) (p : Program β α)
    (device : σ) (start : holds device) : holds (p.run device).2 := by
  induction p generalizing device with
  | done result => exact start
  | read address next ih => exact ih _ _ (read device address start)
  | write address source next ih => exact ih _ (write device address source start)

/-- A state of variables of type `δ` in memory, next to a device. -/
structure Machine (δ σ : Type) where
  vars : δ
  device : σ

/-- A program that also keeps variables. -/
abbrev Task (δ β α : Type) := StateT δ (Program β) α

namespace Task

def read (address : Nat) : Task δ β β := StateT.lift (.read address .done)

def write (address : Nat) (source : β) : Task δ β Unit := StateT.lift (.write address source (.done ()))

def exec [Device σ β] (task : Task δ β α) (m : Machine δ σ) : α × Machine δ σ :=
  let finished := (task m.vars).run m.device
  (finished.1.1,⟨finished.1.2,finished.2⟩)

variable [Device σ β] (m : Machine δ σ)

@[simp] theorem exec_pure (result : α) : exec (pure result : Task δ β α) m = (result,m) := rfl

@[simp] theorem exec_bind (task : Task δ β α) (f : α → Task δ β γ) :
    exec (task >>= f) m = exec (f (exec task m).1) (exec task m).2 := by
  change (let finished := Program.run (task m.vars >>= fun r => f r.1 r.2) m.device
    (finished.1.1,Machine.mk finished.1.2 finished.2)) = _
  rw [Program.run_bind]
  rfl

@[simp] theorem exec_get : exec (get : Task δ β δ) m = (m.vars,m) := rfl

@[simp] theorem exec_set (vars : δ) : exec (set vars : Task δ β PUnit) m = (.unit,{m with vars := vars}) := rfl

@[simp] theorem exec_modify (f : δ → δ) :
    exec (modify f : Task δ β PUnit) m = (.unit,{m with vars := f m.vars}) := rfl

@[simp] theorem exec_ite (c : Prop) [Decidable c] (yes no : Task δ β α) :
    exec (if c then yes else no) m = if c then exec yes m else exec no m := by
  split <;> rfl

theorem exec_read (address : Nat) :
    exec (read address : Task δ β β) m =
      ((Device.read m.device address).1,{m with device := (Device.read m.device address).2}) := rfl

theorem exec_write (address : Nat) (source : β) :
    exec (write address source : Task δ β Unit) m = ((),{m with device := Device.write m.device address source}) := rfl

end Task

/-- The run of a task commutes with a view of the device. -/
theorem exec_view [Device σ β] [Device τ β] (seen : View σ τ) (task : Task δ β α) (m : Machine δ σ) :
    task.exec (Machine.mk m.vars (seen.view m.device)) =
      ((task.exec m).1,⟨(task.exec m).2.vars,seen.view (task.exec m).2.device⟩) := by
  simp only [Task.exec,run_view seen]

end BlockProgram
