import Mathlib.Data.List.Basic

/-! Machines that answer requests, and specifications of their answers. A machine whose states
stand for states of the specification, step by step, answers whole sessions as it allows. -/
namespace Simulation

variable {σ α ω ρ : Type*}

/-- The requests of a session with the answers of the machine. -/
inductive Session (exec : ω → σ → ρ × σ) (possible : σ → ω → Prop) (s : σ) : List (ω × ρ) → σ → Prop
  | start : Session exec possible s [] s
  | step {history : List (ω × ρ)} {t : σ} (op : ω) (before : Session exec possible s history t) (able : possible t op) :
      Session exec possible s (history ++ [(op,(exec op t).1)]) (exec op t).2

/-- The same session as the specification allows it. -/
inductive Allows (gives : α → ω → ρ → α → Prop) (a : α) : List (ω × ρ) → α → Prop
  | start : Allows gives a [] a
  | step {history : List (ω × ρ)} {middle after : α} {op : ω} {answer : ρ} (before : Allows gives a history middle)
      (next : gives middle op answer after) : Allows gives a (history ++ [(op,answer)]) after

/-- In the states of `kept`, each request is answered as in the state of the specification. -/
structure Refines (exec : ω → σ → ρ × σ) (possible : σ → ω → Prop) (gives : α → ω → ρ → α → Prop) (kept : σ → Prop)
    (view : σ → α) : Prop where
  keeps : ∀ s op, kept s → possible s op → kept (exec op s).2
  gives : ∀ s op, kept s → possible s op → gives (view s) op (exec op s).1 (view (exec op s).2)

variable {exec : ω → σ → ρ × σ} {possible : σ → ω → Prop} {gives : α → ω → ρ → α → Prop} {kept : σ → Prop} {view : σ → α}
  {s t : σ} {history : List (ω × ρ)}

theorem Refines.session (refines : Refines exec possible gives kept view) (start : kept s)
    (run : Session exec possible s history t) : kept t ∧ Allows gives (view s) history (view t) := by
  induction run with
  | start => exact ⟨start,.start⟩
  | step op _ able ih =>
    obtain ⟨here,allows⟩ := ih
    exact ⟨refines.keeps _ op here able,allows.step (refines.gives _ op here able)⟩

end Simulation
