import Mathlib.Data.Finset.Card
import Mathlib.Algebra.BigOperators.Group.Finset.Basic
import Mathlib.Algebra.Order.BigOperators.Group.Finset
import MyShell.Lib.RecencyList
import MyShell.Demand.Kernel

/-! What the round-robin loop is for, without frames and files: how far each process is, how many
of its pages were loaded, and the resident pages in the order of their last use. The pages
that a waiting process still needs are never used least recently when a page has to go. -/
namespace MyShell.Demand
open RecencyList

structure Progress where
  done : Nat → Nat
  loaded : Nat → Nat
  queue : List Nat
  resident : List (Nat × Nat)
  history : List Event

theorem pagesOf_eq (lines : Nat) : pagesOf lines = (lines + 2) / 3 := by
  unfold pagesOf pageLines
  split <;> omega

section
variable (frames : Nat) (script : Nat → List Text)

/-- The pages that a process starts with. -/
def share (p : Nat) : Nat := min 2 (pagesOf (script p).length)

/-- The next line of a process, on a page that is resident. -/
def useLine (s : Progress) (p : Nat) : Progress :=
  {s with
    done := Function.update s.done p (s.done p + 1)
    resident := touch (p,s.done p/3) s.resident
    history := .executed (p,s.done p/3) ((script p).getD (s.done p) []) :: s.history}

/-- The resident pages without the one to go, if one has to go. -/
def roomFor (s : Progress) : Progress :=
  if s.resident.length < frames then s
  else {s with
    resident := s.resident.dropLast
    history := (s.resident.getLast?.map Event.evicted).toList ++ s.history}

/-- The next page of a process is loaded, and the process goes to the end of the queue. -/
def serveFault (s : Progress) (p : Nat) : Progress :=
  {roomFor frames s with
    loaded := Function.update s.loaded p (s.loaded p + 1)
    queue := s.queue ++ [p]
    resident := (p,s.loaded p) :: (roomFor frames s).resident
    history := .loaded (p,s.loaded p) :: (roomFor frames s).history}

def runLine (s : Progress) (p : Nat) : Bool × Progress :=
  if s.done p/3 < s.loaded p then (false,useLine script s p) else (true,serveFault frames s p)

/-- Two lines, up to a page fault, and back to the queue; or the last line. -/
def takeTurn (s : Progress) (p : Nat) : Progress :=
  if 1 < (script p).length - s.done p then
    let first := runLine frames script s p
    if first.1 then first.2
    else
      let second := runLine frames script first.2 p
      if second.1 then second.2 else {second.2 with queue := second.2.queue ++ [p]}
  else if (script p).length - s.done p = 1 then (runLine frames script s p).2
  else s

def turn (s : Progress) : Progress :=
  match s.queue with
  | [] => s
  | p :: rest => takeTurn frames script {s with queue := rest} p

variable (pids : Finset Nat)

/-- How far a process is, and its pages. -/
structure Loaded (s : Progress) (p : Nat) : Prop where
  within : s.done p ≤ (script p).length
  covered : s.done p ≤ 3*s.loaded p
  least : share script p ≤ s.loaded p
  most : s.loaded p ≤ pagesOf (script p).length
  ahead : s.loaded p ≤ max 2 (s.done p/3 + 1)

/-- The page has been loaded, and holds a line that has not been executed. -/
def Needed (s : Progress) (page : Nat × Nat) : Prop :=
  page.2 < s.loaded page.1 ∧ s.done page.1 < (script page.1).length ∧ s.done page.1 < 3*page.2 + 3

structure Sound (s : Progress) : Prop where
  loaded : ∀ p ∈ pids, Loaded script s p
  queued : ∀ p ∈ s.queue, p ∈ pids
  once : s.queue.Nodup
  distinct : s.resident.Nodup
  room : s.resident.length ≤ frames
  known : ∀ page ∈ s.resident, page.1 ∈ pids ∧ page.2 < s.loaded page.1
  needed : ∀ p ∈ pids, ∀ i, Needed script s (p,i) → (p,i) ∈ s.resident

/-- What is left to do: lines and pages, and the processes in the queue. -/
def rank (s : Progress) : Nat :=
  ∑ p ∈ pids, ((script p).length - s.done p + (pagesOf (script p).length - s.loaded p)) + s.queue.length

/-- The page of the next line is one that a page fault has loaded. -/
def Current (s : Progress) (q : Nat) : Prop :=
  s.done q < (script q).length ∧ 2 ≤ s.done q/3 ∧ s.done q/3 < s.loaded q

/-- How many pages of `r` have been used since the current page of `q`. -/
def depth (s : Progress) (q r : Nat) : Nat :=
  ((above (q,s.done q/3) s.resident).toFinset.filter fun page => page.1 = r).card

/-- The queue turns fairly: no process is more than one turn ahead while the first pages are
in use, and since the last turn of a process each other one used no more pages than `quota`.
A process out of the queue is finished, if it is not `running`. -/
structure Waiting (quota : Nat → Nat) (running : Nat → Prop) (s : Progress) : Prop where
  ended : ∀ p ∈ pids, p ∉ s.queue → ¬running p → s.done p = (script p).length
  even : ∀ p ∈ s.queue, s.done p < (script p).length → s.done p < 6 → s.done p % 2 = 0
  order : s.queue.Pairwise fun p q => s.done p < (script p).length → s.done q < (script q).length →
    min 6 (s.done p) ≤ min 6 (s.done q) ∧ min 6 (s.done q) ≤ min 6 (s.done p) + 2
  own : ∀ q ∈ s.queue, Current script s q → depth s q q = 0
  shallow : ∀ q ∈ s.queue, Current script s q → ∀ r, r ≠ q → depth s q r ≤ quota r
  behind : s.queue.Pairwise fun r q => Current script s q → depth s q r = 0

end
end MyShell.Demand
