import MyShell.Demand.Fault
import MyShell.Demand.History

/-! The loop of `run_proc_RR` follows the progress turn by turn, and ends with all processes finished. -/
namespace MyShell.Demand
open RecencyList TextFile

section
variable {W : Type} {border : Nat} {shell : Shell W} {start : Memory × W} {texts : Nat → Text} {pids : Finset Nat} {k : Kernel W}
  {s : Progress} {p : Nat}

/-- The scripts can be run: their lines fit the buffer, and the commands leave the frames alone. -/
structure Runnable (border : Nat) (shell : Shell W) (texts : Nat → Text) (pids : Finset Nat) : Prop where
  short : ∀ p ∈ pids, ShortLines (texts p)
  quiet : ∀ p ∈ pids, ∀ line ∈ scripts texts p, Quiet border shell line
  frames : ∑ p ∈ pids, share (scripts texts) p ≤ border/3

/-- The kernel with the frames in use, the first ones. -/
abbrev Holds (border : Nat) (shell : Shell W) (start : Memory × W) (texts : Nat → Text) (pids : Finset Nat) (k : Kernel W) (s : Progress) : Prop :=
  Follows border shell start texts pids (Finset.range s.resident.length) k s

theorem Follows.line (follows : Holds border shell start texts pids k s) (runnable : Runnable border shell texts pids)
    (sound : Sound (border/3) (scripts texts) pids s) (member : p ∈ pids) (unfinished : s.done p < (scripts texts p).length) :
    ∃ k', runCurrent border shell k p = some ((runLine (border/3) (scripts texts) s p).1,k') ∧
      Holds border shell start texts pids k' (runLine (border/3) (scripts texts) s p).2 := by
  unfold runLine
  by_cases here : s.done p/3 < s.loaded p
  · rw [if_pos here]
    obtain ⟨k',ran,after⟩ := follows.execute sound member unfinished here (runnable.quiet p member)
    have length : (useLine (scripts texts) s p).resident.length = s.resident.length :=
      length_touch (sound.page_resident member unfinished here)
    rw [← length] at after
    exact ⟨k',ran,after⟩
  · rw [if_neg here]
    have missing := ((sound.loaded p member).late unfinished (Nat.le_of_not_lt here)).2
    have some : 0 < border/3 := (share_pos unfinished).trans_le
      ((Finset.single_le_sum (fun r _ => Nat.zero_le (share (scripts texts) r)) member).trans runnable.frames)
    exact follows.fault sound member (runnable.short p member) unfinished missing some

theorem Follows.takeTurn (follows : Holds border shell start texts pids k s) (runnable : Runnable border shell texts pids)
    (sound : Sound (border/3) (scripts texts) pids s) (member : p ∈ pids) {whole : Kernel W} {rest : List Nat}
    (head : whole.queue = p :: rest) (popped : k = {whole with queue := rest}) :
    ∃ k', turnRR border shell whole = some k' ∧ Holds border shell start texts pids k' (takeTurn (border/3) (scripts texts) s p) := by
  have size : (k.pcbs p).size = ((scripts texts p).length : Int) - s.done p := (follows.runs p member).size
  have within := (sound.loaded p member).within
  have passes : turnRR border shell whole =
      if 1 < (k.pcbs p).size then
        (runCurrent border shell k p).bind fun first =>
          if first.1 then some first.2
          else (runCurrent border shell first.2 p).bind fun second =>
            if second.1 then some second.2 else some {second.2 with queue := second.2.queue ++ [p]}
      else if (k.pcbs p).size = 1 then (runCurrent border shell k p).bind fun last => some last.2
      else some k := by
    rw [popped]
    unfold turnRR
    rw [head]
    rfl
  rw [passes]
  unfold Demand.takeTurn
  by_cases two : 1 < (scripts texts p).length - s.done p
  · have unfinished : s.done p < (scripts texts p).length := by omega
    obtain ⟨k1,first,after⟩ := follows.line runnable sound member unfinished
    rw [if_pos (by omega),if_pos two,first]
    simp only [Option.bind_some]
    by_cases fault : (runLine (border/3) (scripts texts) s p).1 = true
    · rw [if_pos fault,if_pos fault]
      exact ⟨k1,rfl,after⟩
    · rw [if_neg fault,if_neg fault]
      have here : s.done p/3 < s.loaded p := by
        by_contra missing
        unfold runLine at fault
        rw [if_neg missing] at fault
        exact fault rfl
      have same : runLine (border/3) (scripts texts) s p = (false,useLine (scripts texts) s p) := if_pos here
      rw [same] at after ⊢
      have sound1 := sound.useLine member unfinished here
      have progress : (useLine (scripts texts) s p).done p = s.done p + 1 := Function.update_self ..
      have more : (useLine (scripts texts) s p).done p < (scripts texts p).length := by omega
      obtain ⟨k2,second,after2⟩ := after.line runnable sound1 member more
      rw [second]
      simp only [Option.bind_some]
      by_cases fault2 : (runLine (border/3) (scripts texts) (useLine (scripts texts) s p) p).1 = true
      · rw [if_pos fault2,if_pos fault2]
        exact ⟨k2,rfl,after2⟩
      · rw [if_neg fault2,if_neg fault2,after2.queue]
        exact ⟨_,rfl,after2.requeue _⟩
  · rw [if_neg (by omega),if_neg two]
    by_cases one : (scripts texts p).length - s.done p = 1
    · obtain ⟨k1,last,after⟩ := follows.line runnable sound member (by omega)
      rw [if_pos (by omega),if_pos one,last]
      exact ⟨k1,rfl,after⟩
    · rw [if_neg (by omega),if_neg one]
      exact ⟨k,rfl,follows⟩

theorem Follows.turn (follows : Holds border shell start texts pids k s) (runnable : Runnable border shell texts pids)
    (sound : Sound (border/3) (scripts texts) pids s) (some : s.queue ≠ []) :
    ∃ k', turnRR border shell k = Option.some k' ∧ Holds border shell start texts pids k' (turn (border/3) (scripts texts) s) := by
  unfold Demand.turn
  split
  · rename_i none
    exact absurd none some
  · rename_i p rest head
    have once := sound.once
    rw [head] at once
    exact (follows.requeue rest).takeTurn runnable
      (sound.withQueue rest (fun q inside => sound.queued q (head ▸ List.mem_cons_of_mem _ inside)) once.of_cons)
      (sound.queued p (head ▸ List.mem_cons_self)) (follows.queue.trans head) rfl

/-- The loop ends when the processes in the queue have run all their lines. -/
theorem Follows.finished (follows : Holds border shell start texts pids k s) (sound : Sound (border/3) (scripts texts) pids s)
    (ended : queueDone k = true) (queued : p ∈ s.queue) : s.done p = (scripts texts p).length := by
  have member := sound.queued p queued
  have runs := follows.runs p member
  have within := (sound.loaded p member).within
  unfold queueDone at ended
  have through := List.all_eq_true.mp ended p (follows.queue ▸ queued)
  unfold pcbDone at through
  rw [runs.table,List.all_eq_true] at through
  by_contra open_
  have unfinished : s.done p < (scripts texts p).length := Nat.lt_of_le_of_ne within open_
  have inside : s.done p/3 < pagesOf (scripts texts p).length := by
    rw [pagesOf_eq]
    omega
  have full := through _ (List.mem_range.mpr inside)
  rw [beq_iff_eq,runs.counter _ inside] at full
  simp only [pageLines] at full
  omega

/-- What holds in every state between the passes of the loop. -/
structure Underway (border : Nat) (shell : Shell W) (start : Memory × W) (texts : Nat → Text) (pids : Finset Nat)
    (k : Kernel W) (s : Progress) : Prop where
  follows : Holds border shell start texts pids k s
  steady : Steady (border/3) (scripts texts) pids s
  recorded : Recorded (scripts texts) s
  filled : s.resident.length = min (border/3) (∑ p ∈ pids, s.loaded p)

theorem Underway.turn (kept : Underway border shell start texts pids k s) (runnable : Runnable border shell texts pids)
    (goes : queueDone k = false) :
    ∃ k' s', turnRR border shell k = some k' ∧ Underway border shell start texts pids k' s' ∧
      rank (scripts texts) pids s' < rank (scripts texts) pids s := by
  have some : s.queue ≠ [] := by
    intro none
    have empty : queueDone k = true := by
      unfold queueDone
      rw [kept.follows.queue,none]
      rfl
    exact Bool.false_ne_true (goes.symm.trans empty)
  obtain ⟨k',ran,after⟩ := kept.follows.turn runnable kept.steady.sound some
  obtain ⟨steady,steps,less⟩ := kept.steady.turn runnable.frames some
  refine ⟨k',_,ran,⟨after,steady,kept.recorded.steps steps,?_⟩,less⟩
  rcases Nat.eq_zero_or_pos (border/3) with none | positive
  · have room := steady.sound.room
    rw [none] at room ⊢
    rw [Nat.zero_min]
    exact Nat.le_zero.mp room
  · exact Steps.filled positive steps kept.filled

variable (border shell) in
/-- The kernel after `count` passes of the loop of `run_proc_RR`, or at its end. -/
def afterTurns : Nat → Kernel W → Option (Kernel W)
  | 0, k => some k
  | count+1, k => if queueDone k then some k else (turnRR border shell k).bind (afterTurns count)

theorem Underway.afterTurns (kept : Underway border shell start texts pids k s) (runnable : Runnable border shell texts pids) (count : Nat) :
    ∃ k' s', afterTurns border shell count k = some k' ∧ Underway border shell start texts pids k' s' := by
  induction count generalizing k s with
  | zero => exact ⟨k,s,rfl,kept⟩
  | succ count ih =>
    rw [Demand.afterTurns]
    cases ended : queueDone k with
    | true => exact ⟨k,s,rfl,kept⟩
    | false =>
      obtain ⟨k1,s1,ran,kept1,_⟩ := kept.turn runnable ended
      simp only [Bool.false_eq_true,if_false,ran,Option.bind_some]
      exact ih kept1

/-- The loop ends, all processes finished. -/
theorem Underway.run (kept : Underway border shell start texts pids k s) (runnable : Runnable border shell texts pids) :
    ∃ fuel k' s', (∀ more, fuel ≤ more → runTurns border shell more k = some k') ∧ Underway border shell start texts pids k' s' ∧
      ∀ p ∈ pids, s'.done p = (scripts texts p).length := by
  induction bound : rank (scripts texts) pids s using Nat.strong_induction_on generalizing k s with
  | _ n ih =>
    subst bound
    cases ended : queueDone k with
    | true =>
      refine ⟨1,k,s,fun more least => ?_,kept,fun p member => ?_⟩
      · obtain ⟨fuel,rfl⟩ := Nat.exists_eq_add_of_le' least
        rw [runTurns,ended,if_pos rfl]
      · by_cases queued : p ∈ s.queue
        · exact kept.follows.finished kept.steady.sound ended queued
        · exact kept.steady.waiting.ended p member queued id
    | false =>
      obtain ⟨k1,s1,ran,kept1,less⟩ := kept.turn runnable ended
      obtain ⟨fuel,k',s',ends,kept',finished⟩ := ih _ less kept1 rfl
      refine ⟨fuel+1,k',s',fun more least => ?_,kept',finished⟩
      obtain ⟨extra,rfl⟩ := Nat.exists_eq_add_of_le least
      have left : fuel + 1 + extra = fuel + extra + 1 := by omega
      rw [left,runTurns,ended]
      simp only [Bool.false_eq_true,if_false,ran,Option.bind_eq_bind,Option.bind_some]
      exact ends _ (Nat.le_add_right _ _)

end
end MyShell.Demand
