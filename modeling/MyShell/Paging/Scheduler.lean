import Mathlib.Algebra.Order.BigOperators.Group.List
import Mathlib.Algebra.Order.Group.Nat
import MyShell.Paging.Quantum

/-! The schedulers of the paging shell, and the commands at its prompt. As long as the frame store holds every page
that the session loads, each script that is run is executed line by line, in its order, interleaved with the others. -/
namespace MyShell.Paging
open TextFile Interleaving

def maxInt : Nat := 2147483646

def schedulingError : Nat := 5

/-- The loop of the schedulers; a process that comes back goes to the tail of the queue if `back` is set. A loop that
never ends runs out of `turns`. -/
def schedulerLoop (z : Sizes) (scripts : Text → Option Text) (rounds quanta : Nat) (back : Bool) :
    Nat → Machine → Option Machine
  | 0, _ => none
  | turns+1, m =>
    match readyQueuePopHead m with
    | none => some m
    | some (pcb,m) =>
      match executeProcess z scripts rounds quanta m pcb with
      | (.stopped,_,_) => none
      | (.terminated,m,_) => schedulerLoop z scripts rounds quanta back turns m
      | (.ready,m,pcb) =>
        schedulerLoop z scripts rounds quanta back turns (if back then readyQueueAddToTail m pcb else m)

def schedulerFCFS (z : Sizes) (scripts : Text → Option Text) (rounds turns : Nat) (m : Machine) : Option Machine :=
  schedulerLoop z scripts rounds maxInt false turns m

def schedulerRR (z : Sizes) (scripts : Text → Option Text) (rounds quanta turns : Nat) (m : Machine) : Option Machine :=
  schedulerLoop z scripts rounds quanta true turns m

def scheduleByPolicy (z : Sizes) (scripts : Text → Option Text) (rounds turns : Nat) (inBackground : Bool)
    (policy : String) (m : Machine) : Option (Nat × Machine) :=
  if policy ≠ "FCFS" ∧ policy ≠ "RR" ∧ policy ≠ "RR30" then some (schedulingError,m)
  else if inBackground then some (0,m)
  else if policy = "FCFS" then (schedulerFCFS z scripts rounds turns m).map fun m => (0,m)
  else if policy = "RR" then (schedulerRR z scripts rounds 2 turns m).map fun m => (0,m)
  else (schedulerRR z scripts rounds 30 turns m).map fun m => (0,m)

/-- A script that does not exist has error code 1, not 11, and the queue is scheduled all the same. -/
def run (z : Sizes) (scripts : Text → Option Text) (rounds turns : Nat) (inBackground : Bool) (m : Machine)
    (script : Text) : Option (Nat × Machine) :=
  let (errCode,m) := processInitialize z scripts m script
  if errCode = 11 then some (errCode,m)
  else (scheduleByPolicy z scripts rounds turns inBackground "FCFS" m).map fun r => (errCode,r.2)

/-- The scripts of `exec` are started in turn; the first that cannot be started ends it with its error code. -/
def startAll (z : Sizes) (scripts : Text → Option Text) : List Text → Machine → Nat × Machine
  | [], m => (0,m)
  | filename :: filenames, m =>
    match processInitialize z scripts m filename with
    | (0,m) => startAll z scripts filenames m
    | (errorCode,m) => (errorCode,m)

def exec (z : Sizes) (scripts : Text → Option Text) (rounds turns : Nat) (inBackground : Bool) (m : Machine)
    (names : List Text) : Option (Nat × Machine) :=
  match names with
  | [fname] => run z scripts rounds turns inBackground m fname
  | names =>
    match startAll z scripts names m with
    | (0,m) => scheduleByPolicy z scripts rounds turns inBackground "RR" m
    | (errorCode,m) => some (errorCode,m)

/-- A command at the prompt; `quit` does not come back. -/
def promptCommand (z : Sizes) (scripts : Text → Option Text) (rounds turns : Nat) (m : Machine) (args : List Text) :
    Option Machine :=
  match readCommand args with
  | .quit => none
  | .set var value => some {m with kernel := memSetValue z m.kernel var value}
  | .resetmem => some {m with kernel := variableStoreMemInit z m.kernel}
  | .run names => (exec z scripts rounds turns false m names).map Prod.snd
  | .other => some m

def session (z : Sizes) (scripts : Text → Option Text) (rounds turns : Nat) (commands : List (List Text)) (m : Machine) :
    Option Machine := commands.foldlM (promptCommand z scripts rounds turns) m

section
variable {z : Sizes} {scripts : Text → Option Text} {text name : Nat → Text} {base : List Event} {total used : Nat}
  {progress : Nat → List Text} {waiting : List Process} {m : Machine}

theorem startAll_machine (z : Sizes) (scripts : Text → Option Text) (names : List Text) (m : Machine) :
    (startAll z scripts names m).2 = initializeAll z scripts names m := by
  induction names generalizing m with
  | nil => rfl
  | cons filename names ih =>
    rw [startAll,initializeAll]
    generalize processInitialize z scripts m filename = result
    obtain ⟨errorCode,m'⟩ := result
    cases errorCode with
    | zero => exact ih m'
    | succ errorCode => rfl

/-- Within a process, `exec` and `run` only start their processes. -/
theorem exec_background (z : Sizes) (scripts : Text → Option Text) (rounds turns : Nat) (m : Machine)
    (names : List Text) :
    (exec z scripts rounds turns true m names).map Prod.snd = some (initializeAll z scripts names m) := by
  have scheduled (policy : String) (known : policy = "FCFS" ∨ policy = "RR") (m : Machine) :
      scheduleByPolicy z scripts rounds turns true policy m = some (0,m) := by
    rw [scheduleByPolicy,if_neg (fun unknown => known.elim unknown.1 unknown.2.1),if_pos rfl]
  unfold exec
  rw [← startAll_machine]
  split
  · rename_i fname
    rw [startAll,run]
    generalize processInitialize z scripts m fname = result
    obtain ⟨errCode,m'⟩ := result
    dsimp only
    rw [scheduled "FCFS" (Or.inl rfl)]
    cases errCode with
    | zero => rfl
    | succ errCode => split <;> rfl
  · generalize startAll z scripts names m = result
    obtain ⟨errorCode,m'⟩ := result
    cases errorCode with
    | zero => exact congrArg _ (scheduled "RR" (Or.inr rfl) m')
    | succ errorCode => rfl

/-- A process goes to the tail of the ready queue. -/
theorem Live.queued {p : Process} {pcb : PCB}
    (state : Live z text name base total used progress (p :: waiting) m) (runs : p.Runs text name pcb)
    (queue : List.Forall₂ (Process.Runs text name) waiting m.kernel.ready) :
    Waiting z text name base total used progress (waiting ++ [p]) (readyQueueAddToTail m pcb) := by
  refine ⟨?_,List.rel_append queue (List.Forall₂.cons runs List.Forall₂.nil)⟩
  exact (state.perm (List.perm_append_singleton _ _)).congr rfl fun _ _ => ⟨rfl,rfl⟩

/-- Each turn of the loop makes the lines that are left fewer, and it ends with an empty queue. -/
theorem Waiting.loop (scripts : Text → Option Text) (rounds quanta : Nat) (back : Bool) (turns : Nat)
    (state : Waiting z text name base total used progress waiting m)
    (forwards : (back = true ∧ 0 < quanta) ∨ frameSize*pageTableSize < quanta)
    (enough : (waiting.map (Process.left text)).sum < turns) :
    ∃ used' progress' m', schedulerLoop z scripts (rounds+1) quanta back turns m = some m' ∧
      Waiting z text name base total used' progress' [] m' ∧
      (∀ p ∈ waiting, progress' p.pid = lines (text p.pid)) ∧
      (∀ i, i ∉ waiting.map Process.pid → progress' i = progress i) := by
  induction turns generalizing used progress waiting m with
  | zero => exact absurd enough (Nat.not_lt_zero _)
  | succ turns ih =>
    have queue := state.queue
    cases ready : m.kernel.ready with
    | nil =>
      rw [ready] at queue
      cases queue
      refine ⟨used,progress,m,?_,state,fun p member => absurd member List.not_mem_nil,fun _ _ => rfl⟩
      rw [schedulerLoop,readyQueuePopHead,ready]
    | cons pcb rest =>
      rw [ready] at queue
      cases queue with
      | cons runs others =>
        rename_i p processes
        have pops : readyQueuePopHead m = some (pcb,{m with kernel := {m.kernel with ready := rest}}) := by
          rw [readyQueuePopHead,ready]
        have running : Running z text name base total used progress p pcb processes
            {m with kernel := {m.kernel with ready := rest}} :=
          ⟨state.toLive.congr rfl fun _ _ => ⟨rfl,rfl⟩,runs,others⟩
        have calls := running.executeProcess scripts rounds quanta
        obtain ⟨used1,progress1,rotated,m1,pcb1,order,kept,outcome⟩ := running.quantum scripts quanta
        have counted : (rotated.map (Process.left text)).sum = (processes.map (Process.left text)).sum :=
          (order.map _).sum_eq
        have pids : (rotated.map Process.pid).Perm (processes.map Process.pid) := order.map _
        have distinct := state.distinct
        rw [List.map_cons,List.nodup_cons] at distinct
        rw [List.map_cons,List.sum_cons] at enough
        obtain ⟨frames,comes,next⟩ | ⟨-,ends,all,next⟩ := outcome
        · have within := (next.sound _ List.mem_cons_self).within
          have few := (next.script _ List.mem_cons_self).few
          change p.next+quanta ≤ (lines (text p.pid)).length at within
          change (lines (text p.pid)).length ≤ _ at few
          obtain ⟨rfl,positive⟩ : back = true ∧ 0 < quanta := forwards.resolve_right (by omega)
          have less : Process.left text ⟨p.pid,frames,p.next+quanta⟩ < p.left text := by
            change (lines (text p.pid)).length-(p.next+quanta)+1 < (lines (text p.pid)).length-p.next+1
            omega
          have again := next.toLive.queued next.runs next.queue
          obtain ⟨used2,progress2,m2,loops,state2,done,others2⟩ := ih again
            (by rw [List.map_append,List.sum_append,List.map_singleton,List.sum_singleton]; omega)
          refine ⟨used2,progress2,m2,?_,state2,fun q member => ?_,fun i apart => ?_⟩
          · rw [schedulerLoop,pops]
            dsimp only
            rw [calls,comes]
            exact loops
          · obtain _ | ⟨_,member⟩ := member
            · exact done ⟨p.pid,frames,p.next+quanta⟩ (List.mem_append_right _ List.mem_cons_self)
            · exact done q (List.mem_append_left _ (order.mem_iff.mpr member))
          · rw [List.map_cons,List.mem_cons,not_or] at apart
            rw [others2 i,kept i apart.1]
            rw [List.map_append,List.mem_append,not_or]
            exact ⟨fun member => apart.2 (pids.mem_iff.mp member),fun member => apart.1 (List.mem_singleton.mp member)⟩
        · have positive : 0 < p.left text := Nat.succ_pos _
          obtain ⟨used2,progress2,m2,loops,state2,done,others2⟩ := ih next (by omega)
          refine ⟨used2,progress2,m2,?_,state2,fun q member => ?_,fun i apart => ?_⟩
          · rw [schedulerLoop,pops]
            dsimp only
            rw [calls,ends]
            exact loops
          · obtain _ | ⟨_,member⟩ := member
            · rw [others2 p.pid fun member => distinct.1 (pids.mem_iff.mp member),all]
            · exact done q (order.mem_iff.mpr member)
          · rw [List.map_cons,List.mem_cons,not_or] at apart
            rw [others2 i fun member => apart.2 (pids.mem_iff.mp member),kept i apart.1]

/-- A process enters with the whole of its script before it. -/
theorem Waiting.enter (state : Waiting z text name base total used progress waiting m) (i : Nat)
    (script : Script z (name i) (text i)) (fits : total+pagesOf (text i) ≤ z.frameStoreSize)
    (fresh : i ∉ waiting.map Process.pid) (unpassed : progress i = []) :
    Live z text name base (total+pagesOf (text i)) used progress (⟨i,[],0⟩ :: waiting) m := by
  have room := state.room
  refine ⟨?_,?_,?_,List.nodup_cons.mpr ⟨fresh,state.distinct⟩,?_,state.occupied,?_,fits,state.history⟩
  · rintro q (_ | ⟨_,member⟩)
    · exact script
    · exact state.script q member
  · rintro q (_ | ⟨_,member⟩)
    · exact ⟨fun _ _ _ inside => absurd inside (Nat.not_lt_zero _),fun _ inside => absurd inside (Nat.not_lt_zero _),
        Nat.zero_le _,Nat.zero_le _,List.length_pos_of_ne_nil script.filled⟩
    · exact state.sound q member
  · rintro q (_ | ⟨_,member⟩)
    · exact ⟨fun _ inside => absurd inside (Nat.not_lt_zero _)⟩
    · exact state.stored q member
  · rintro q (_ | ⟨_,member⟩)
    · exact unpassed
    · exact state.passed q member
  · rw [List.map_cons,List.sum_cons]
    change used+(pagesOf (text i)+_) = _
    omega

/-- A script that is started waits behind the others, with its first page or its first two pages in frames. -/
theorem Waiting.start (state : Waiting z text name base total used progress waiting m) (i : Nat)
    (found : scripts (name i) = some (text i)) (script : Script z (name i) (text i))
    (fits : total+pagesOf (text i) ≤ z.frameStoreSize) (fresh : i ∉ waiting.map Process.pid)
    (unpassed : progress i = []) :
    ∃ used' frames m', processInitialize z scripts m (name i) = (0,m') ∧
      Waiting z text name base (total+pagesOf (text i)) used' progress (waiting ++ [⟨i,frames,0⟩]) m' := by
  have state0 := state.enter i script fits fresh unpassed
  have some_line : 0 < (lines (text i)).length := List.length_pos_of_ne_nil script.filled
  have here : AtPage (text i) 0 ⟨text i,0,false⟩ := ⟨rfl,rfl,(decide_eq_false (Nat.not_le.mpr some_line)).symm⟩
  have block0 : Process.Block text name ⟨i,[],0⟩ ⟨0,emptyTable,⟨text i,0,false⟩,name i⟩ :=
    ⟨here,rfl,fun _ inside => absurd inside (Nat.not_lt_zero _),fun _ _ => rfl⟩
  obtain ⟨m1,fp1,load1,here1,grown1⟩ := loadPage_grown (name i) emptyTable state0.occupied (state0.free some_line) here
    script.toLoads some_line script.named
  have state1 := state0.grown some_line grown1
  have block1 := block0.loaded used here1
  by_cases more : frameSize*1 < (lines (text i)).length
  · obtain ⟨m2,fp2,load2,here2,grown2⟩ := loadPage_grown (name i) (Function.update emptyTable 0 (used : Int))
      state1.occupied (state1.free more) here1 script.toLoads more script.named
    have state2 := state1.grown more grown2
    have block2 := block1.loaded (used+1) here2
    have call : processInitialize z scripts m (name i) = (0,readyQueueAddToTail m2
        ⟨Function.update (Function.update emptyTable 0 (used : Int)) 1 ((used+1 : Nat) : Int) 0*frameSize,
          Function.update (Function.update emptyTable 0 (used : Int)) 1 ((used+1 : Nat) : Int),fp2,name i⟩) := by
      simp only [processInitialize,found,load1]
      rw [load2]
    refine ⟨_,_,_,call,state2.queued ?_ ?_⟩
    · exact Process.Block.runs ⟨block2.file,block2.filename,block2.entry,block2.missing⟩ (Nat.succ_pos _) rfl rfl
    · rw [grown2.ready,grown1.ready]
      exact state.queue
  · have eof := here1.eof.trans (decide_eq_true (Nat.not_lt.mp more))
    have call : processInitialize z scripts m (name i) = (0,readyQueueAddToTail m1
        ⟨Function.update emptyTable 0 (used : Int) 0*frameSize,Function.update emptyTable 0 (used : Int),fp1,name i⟩) := by
      simp only [processInitialize,found,load1]
      rw [loadPage_eof z m1 fp1 (name i) _ 1 eof]
    refine ⟨_,_,_,call,state1.queued ?_ ?_⟩
    · exact Process.Block.runs ⟨block1.file,block1.filename,block1.entry,block1.missing⟩ (Nat.succ_pos _) rfl rfl
    · rw [grown1.ready]
      exact state.queue

end
def present (scripts : Text → Option Text) (filename : Text) : Bool := (scripts filename).isSome

/-- The scripts that a command starts: those before the first that does not exist. -/
def starts (scripts : Text → Option Text) (args : List Text) : List Text :=
  match readCommand args with
  | .run names => names.takeWhile (present scripts)
  | _ => []

/-- `run` schedules the ready queue, and so does `exec` if all its scripts exist. -/
def schedules (scripts : Text → Option Text) (args : List Text) : Bool :=
  match readCommand args with
  | .run [_] => true
  | .run names => names.all (present scripts)
  | _ => false

/-- The scripts that the commands run, when those in `names` wait before. -/
def ran (scripts : Text → Option Text) : List (List Text) → List Text → List Text
  | [], _ => []
  | args :: commands, names =>
    if schedules scripts args then names ++ starts scripts args ++ ran scripts commands []
    else ran scripts commands (names ++ starts scripts args)

/-- The scripts that wait after the commands. -/
def waits (scripts : Text → Option Text) : List (List Text) → List Text → List Text
  | [], names => names
  | args :: commands, names =>
    if schedules scripts args then waits scripts commands []
    else waits scripts commands (names ++ starts scripts args)

def contents (scripts : Text → Option Text) (filename : Text) : Text := (scripts filename).getD []

theorem ran_waits (scripts : Text → Option Text) (commands : List (List Text)) (names : List Text) :
    ran scripts commands names ++ waits scripts commands names = names ++ commands.flatMap (starts scripts) := by
  induction commands generalizing names with
  | nil => exact (List.append_nil names).symm
  | cons args commands ih =>
    rw [ran,waits,List.flatMap_cons]
    split
    · rw [List.append_assoc,ih [],List.nil_append,List.append_assoc]
    · rw [ih (names ++ starts scripts args),List.append_assoc]

theorem contents_some (scripts : Text → Option Text) (filename : Text) (content : present scripts filename = true) :
    scripts filename = some (contents scripts filename) := by
  obtain ⟨text,found⟩ := Option.isSome_iff_exists.mp content
  rw [contents,found]
  rfl

/-- The first `done` scripts of a session have run, and the others that were started wait. -/
def Settled (z : Sizes) (scripts : Text → Option Text) (names : List Text) (base : List Event) (done count : Nat)
    (m : Machine) : Prop :=
  ∃ used waiting, done ≤ count ∧ waiting.map Process.pid = List.range' done (count-done) ∧
    Waiting z (fun i => contents scripts (names.getD i [])) (fun i => names.getD i []) base
      ((names.take count).map fun filename => pagesOf (contents scripts filename)).sum used
      (fun i => if i < done then lines (contents scripts (names.getD i [])) else []) waiting m

section
variable {z : Sizes} {scripts : Text → Option Text} {names : List Text} {base : List Event} {done count : Nat}
  {m m' : Machine}

theorem Settled.undisturbed (settled : Settled z scripts names base done count m) (same : Undisturbed z m m') :
    Settled z scripts names base done count m' := by
  obtain ⟨used,waiting,order,pids,state⟩ := settled
  refine ⟨used,waiting,order,pids,state.toLive.congr same.history same.frames,?_⟩
  rw [same.ready]
  exact state.queue

/-- The scripts of a session that exist can be loaded, and there is a frame for each of their pages. -/
structure Fits (z : Sizes) (scripts : Text → Option Text) (names : List Text) : Prop where
  script : ∀ filename ∈ names, Script z filename (contents scripts filename)
  bound : (names.map fun filename => pagesOf (contents scripts filename)).sum ≤ z.frameStoreSize

theorem Settled.start (settled : Settled z scripts names base done count m) (fits : Fits z scripts names)
    (filename : Text) (here : names[count]? = some filename) (content : present scripts filename = true) :
    ∃ m', processInitialize z scripts m filename = (0,m') ∧ Settled z scripts names base done (count+1) m' := by
  obtain ⟨used,waiting,order,pids,state⟩ := settled
  have name : names.getD count [] = filename := by
    rw [List.getD_eq_getElem?_getD,here]
    rfl
  have member := List.mem_of_getElem? here
  have pages : ((names.take (count+1)).map fun filename => pagesOf (contents scripts filename)).sum =
      ((names.take count).map fun filename => pagesOf (contents scripts filename)).sum+pagesOf (contents scripts filename) := by
    rw [List.take_add_one,here,List.map_append,List.sum_append]
    rfl
  have within : ((names.take (count+1)).map fun filename => pagesOf (contents scripts filename)).sum ≤ z.frameStoreSize := by
    refine le_trans ?_ fits.bound
    rw [List.map_take,← List.sum_take_add_sum_drop (names.map _) (count+1)]
    exact Nat.le_add_right _ _
  have found : scripts (names.getD count []) = some (contents scripts (names.getD count [])) := by
    rw [name]
    exact contents_some scripts filename content
  obtain ⟨used',frames,m',call,next⟩ := state.start count found
    (by rw [name]; exact fits.script filename member) (by rw [name,← pages]; exact within)
    (by rw [pids,List.mem_range'_1]; omega) (if_neg (Nat.not_lt.mpr order))
  rw [name] at call
  refine ⟨m',call,used',waiting ++ [⟨count,frames,0⟩],order.trans (Nat.le_succ _),?_,?_⟩
  · have longer : count+1-done = count-done+1 := by omega
    have last : done+(count-done) = count := by omega
    rw [longer,List.range'_1_concat,last,← pids,List.map_append]
    rfl
  · rw [pages]
    rw [name] at next
    exact next

/-- The queue is run to its end. -/
theorem Settled.loop (settled : Settled z scripts names base done count m) (rounds quanta : Nat) (back : Bool) (turns : Nat)
    (forwards : (back = true ∧ 0 < quanta) ∨ frameSize*pageTableSize < quanta)
    (enough : (frameSize*pageTableSize+1)*count < turns) :
    ∃ m', schedulerLoop z scripts (rounds+1) quanta back turns m = some m' ∧
      Settled z scripts names base count count m' := by
  obtain ⟨used,waiting,order,pids,state⟩ := settled
  have length : waiting.length = count-done := by
    rw [← List.length_map,pids,List.length_range']
  have few : (waiting.map (Process.left fun i => contents scripts (names.getD i []))).sum ≤
      (frameSize*pageTableSize+1)*count := by
    refine (List.sum_le_card_nsmul _ (frameSize*pageTableSize+1) fun left member => ?_).trans ?_
    · obtain ⟨p,waits,rfl⟩ := List.mem_map.mp member
      have few := (state.script p waits).few
      exact Nat.succ_le_succ ((Nat.sub_le _ _).trans few)
    · rw [List.length_map,Nat.nsmul_eq_mul,length,Nat.mul_comm]
      exact Nat.mul_le_mul_left _ (Nat.sub_le _ _)
  obtain ⟨used',progress,m',loops,next,all,others⟩ := state.loop scripts rounds quanta back turns forwards
    (few.trans_lt enough)
  have same : progress = fun i => if i < count then lines (contents scripts (names.getD i [])) else [] := by
    funext i
    by_cases here : i ∈ waiting.map Process.pid
    · obtain ⟨p,waits,rfl⟩ := List.mem_map.mp here
      rw [pids,List.mem_range'_1] at here
      rw [all p waits,if_pos (by omega)]
    · rw [others i here]
      rw [pids,List.mem_range'_1] at here
      by_cases before : i < done
      · rw [if_pos before,if_pos (by omega)]
      · rw [if_neg before,if_neg (by omega)]
  rw [same] at next
  refine ⟨m',loops,used',[],le_rfl,?_,next⟩
  rw [Nat.sub_self]
  rfl

/-- `exec` starts the scripts before the first that does not exist. -/
theorem Settled.startAll (settled : Settled z scripts names base done count m) (fits : Fits z scripts names)
    (filenames more : List Text) (split : names.drop count = filenames.takeWhile (present scripts) ++ more) :
    ∃ errorCode m', startAll z scripts filenames m = (errorCode,m') ∧
      (errorCode = 0 ↔ filenames.all (present scripts) = true) ∧
      Settled z scripts names base done (count+(filenames.takeWhile (present scripts)).length) m' := by
  induction filenames generalizing count m with
  | nil => exact ⟨0,m,rfl,Iff.intro (fun _ => rfl) fun _ => rfl,settled⟩
  | cons filename filenames ih =>
    by_cases content : present scripts filename = true
    · rw [List.takeWhile_cons_of_pos content,List.cons_append] at split
      have here : names[count]? = some filename := by
        rw [← List.head?_drop,split]
        rfl
      obtain ⟨m1,call,next⟩ := settled.start fits filename here content
      have rest : names.drop (count+1) =
          filenames.takeWhile (present scripts) ++ more := by
        rw [← List.tail_drop,split]
        rfl
      obtain ⟨errorCode,m2,calls,success,last⟩ := ih next rest
      refine ⟨errorCode,m2,?_,?_,?_⟩
      · rw [Paging.startAll,call]
        exact calls
      · rw [List.all_cons,content,Bool.true_and]
        exact success
      · rw [List.takeWhile_cons_of_pos content,List.length_cons,Nat.add_comm _ 1,← Nat.add_assoc]
        exact last
    · have missing : scripts filename = none := Option.not_isSome_iff_eq_none.mp content
      refine ⟨fileDoesNotExist,m,?_,?_,?_⟩
      · rw [Paging.startAll,processInitialize,missing]
        rfl
      · rw [List.all_cons,Bool.eq_false_iff.mpr content,Bool.false_and]
        exact ⟨fun zero => absurd zero Nat.one_ne_zero,fun all => Bool.noConfusion all⟩
      · rw [List.takeWhile_cons_of_neg content]
        exact settled

theorem Settled.schedule (settled : Settled z scripts names base done count m) (rounds turns : Nat)
    (enough : (frameSize*pageTableSize+1)*count < turns) (policy : String) (known : policy = "FCFS" ∨ policy = "RR") :
    ∃ m', scheduleByPolicy z scripts (rounds+1) turns false policy m = some (0,m') ∧
      Settled z scripts names base count count m' := by
  rw [scheduleByPolicy,if_neg (fun unknown => known.elim unknown.1 unknown.2.1),if_neg Bool.false_ne_true]
  obtain rfl | rfl := known
  · obtain ⟨m',loops,next⟩ := settled.loop rounds maxInt false turns (Or.inr (by decide)) enough
    refine ⟨m',?_,next⟩
    rw [if_pos rfl,schedulerFCFS,loops]
    rfl
  · obtain ⟨m',loops,next⟩ := settled.loop rounds 2 true turns (Or.inl ⟨rfl,Nat.succ_pos 1⟩) enough
    refine ⟨m',?_,next⟩
    rw [if_neg (by decide),if_pos rfl,schedulerRR,loops]
    rfl

theorem promptCommand_quiet (rounds turns : Nat) (args : List Text) (quiet : quietCommand (readCommand args) = true) :
    promptCommand z scripts rounds turns m args = interpreter z scripts m args := by
  unfold promptCommand interpreter
  cases command : readCommand args with
  | run names =>
    rw [command] at quiet
    exact Bool.noConfusion quiet
  | quit => rfl
  | set var value => rfl
  | resetmem => rfl
  | other => rfl

theorem startAll_singleton (z : Sizes) (scripts : Text → Option Text) (filename : Text) (m : Machine) :
    startAll z scripts [filename] m = processInitialize z scripts m filename := by
  rw [Paging.startAll]
  generalize processInitialize z scripts m filename = result
  obtain ⟨errorCode,m'⟩ := result
  cases errorCode with
  | zero => rfl
  | succ errorCode => rfl

theorem processInitialize_code (z : Sizes) (scripts : Text → Option Text) (m : Machine) (filename : Text) :
    (processInitialize z scripts m filename).1 ≠ 11 := by
  unfold processInitialize
  cases scripts filename with
  | none => exact (by decide : fileDoesNotExist ≠ 11)
  | some text => exact (by decide : (0 : Nat) ≠ 11)

/-- A script alone is run even if the queue holds others; one that does not exist leaves them to be run. -/
theorem Settled.run (settled : Settled z scripts names base done count m) (fits : Fits z scripts names)
    (rounds turns : Nat) (filename : Text) (more : List Text)
    (split : names.drop count = [filename].takeWhile (present scripts) ++ more)
    (enough : (frameSize*pageTableSize+1)*(count+([filename].takeWhile (present scripts)).length) < turns) :
    ∃ errCode m', run z scripts (rounds+1) turns false m filename = some (errCode,m') ∧
      Settled z scripts names base (count+([filename].takeWhile (present scripts)).length)
        (count+([filename].takeWhile (present scripts)).length) m' := by
  obtain ⟨errorCode,m1,call,-,next⟩ := settled.startAll fits [filename] more split
  obtain ⟨m2,scheduled,last⟩ := next.schedule rounds turns enough "FCFS" (Or.inl rfl)
  rw [startAll_singleton] at call
  have other := processInitialize_code z scripts m filename
  rw [call] at other
  refine ⟨errorCode,m2,?_,last⟩
  rw [Paging.run,call]
  dsimp only
  rw [if_neg other,scheduled]
  rfl

theorem exec_several {filenames : List Text} (single : ∀ filename, filenames ≠ [filename]) {errorCode rounds turns : Nat}
    (call : startAll z scripts filenames m = (errorCode,m')) :
    exec z scripts rounds turns false m filenames =
      if errorCode = 0 then scheduleByPolicy z scripts rounds turns false "RR" m' else some (errorCode,m') := by
  unfold exec
  split
  · exact absurd rfl (single _)
  · rw [call]
    cases errorCode with
    | zero => exact (if_pos rfl).symm
    | succ errorCode => exact (if_neg (Nat.succ_ne_zero _)).symm

theorem schedules_several {args filenames : List Text} (command : readCommand args = .run filenames)
    (single : ∀ filename, filenames ≠ [filename]) : schedules scripts args = filenames.all (present scripts) := by
  unfold schedules
  rw [command]
  split
  · rename_i same
    exact absurd (Command.run.inj same) (single _)
  · rename_i same
    rw [Command.run.inj same]
  · rename_i other
    exact absurd rfl (other _)

/-- A command at the prompt that does not quit. -/
theorem Settled.command (settled : Settled z scripts names base done count m) (fits : Fits z scripts names)
    (rounds turns : Nat) (args more : List Text) (split : names.drop count = starts scripts args ++ more)
    (enough : (frameSize*pageTableSize+1)*(count+(starts scripts args).length) < turns)
    (stays : readCommand args ≠ .quit) :
    ∃ m', promptCommand z scripts (rounds+1) turns m args = some m' ∧
      Settled z scripts names base (if schedules scripts args then count+(starts scripts args).length else done)
        (count+(starts scripts args).length) m' := by
  by_cases quiet : quietCommand (readCommand args) = true
  · obtain ⟨m',call,same⟩ := interpreter_quiet (z := z) scripts m args quiet
    refine ⟨m',(promptCommand_quiet _ _ args quiet).trans call,?_⟩
    have alone : starts scripts args = [] ∧ schedules scripts args = false := by
      unfold starts schedules
      cases command : readCommand args with
      | run names =>
        rw [command] at quiet
        exact Bool.noConfusion quiet
      | quit => exact ⟨rfl,rfl⟩
      | set var value => exact ⟨rfl,rfl⟩
      | resetmem => exact ⟨rfl,rfl⟩
      | other => exact ⟨rfl,rfl⟩
    rw [alone.1,alone.2]
    exact settled.undisturbed same
  · obtain ⟨filenames,command⟩ : ∃ filenames, readCommand args = .run filenames := by
      cases command : readCommand args with
      | run filenames => exact ⟨filenames,rfl⟩
      | quit => exact absurd command stays
      | set var value => exact absurd (by rw [command]; rfl) quiet
      | resetmem => exact absurd (by rw [command]; rfl) quiet
      | other => exact absurd (by rw [command]; rfl) quiet
    have begins : starts scripts args = filenames.takeWhile (present scripts) := by
      rw [starts,command]
    rw [begins] at split enough ⊢
    rw [promptCommand,command]
    dsimp only
    by_cases single : ∃ filename, filenames = [filename]
    · obtain ⟨filename,rfl⟩ := single
      obtain ⟨errCode,m',call,next⟩ := settled.run fits rounds turns filename more split enough
      refine ⟨m',?_,?_⟩
      · rw [exec,call]
        rfl
      · rw [schedules,command]
        exact next
    · obtain ⟨errorCode,m1,call,success,next⟩ := settled.startAll fits filenames more split
      have others (filename : Text) : filenames ≠ [filename] := fun same => single ⟨filename,same⟩
      rw [exec_several others call,schedules_several command others]
      cases errorCode with
      | zero =>
        obtain ⟨m2,scheduled,last⟩ := next.schedule rounds turns enough "RR" (Or.inr rfl)
        refine ⟨m2,?_,?_⟩
        · rw [if_pos rfl,scheduled]
          rfl
        · rw [if_pos (success.mp rfl)]
          exact last
      | succ errorCode =>
        refine ⟨m1,?_,?_⟩
        · rw [if_neg (Nat.succ_ne_zero _)]
          rfl
        rw [if_neg fun found => Nat.succ_ne_zero _ (success.mpr found)]
        exact next

/-- The commands of a session one after the other. -/
theorem Settled.session (rounds turns : Nat) (commands : List (List Text)) (fits : Fits z scripts names)
    (stays : ∀ args ∈ commands, readCommand args ≠ .quit)
    (enough : (frameSize*pageTableSize+1)*names.length < turns) (front waiting more : List Text)
    (split : names = front ++ waiting ++ commands.flatMap (starts scripts) ++ more)
    (settled : Settled z scripts names base front.length (front.length+waiting.length) m) :
    ∃ m', session z scripts (rounds+1) turns commands m = some m' ∧
      Settled z scripts names base (front.length+(ran scripts commands waiting).length)
        (front.length+waiting.length+(commands.flatMap (starts scripts)).length) m' := by
  induction commands generalizing front waiting m with
  | nil => exact ⟨m,rfl,settled⟩
  | cons args commands ih =>
    rw [List.flatMap_cons] at split ⊢
    have length := congrArg List.length split
    simp only [List.length_append] at length
    have here : names.drop (front.length+waiting.length) =
        starts scripts args ++ (commands.flatMap (starts scripts) ++ more) := by
      rw [split,← List.length_append,List.append_assoc (front ++ waiting),List.drop_left,List.append_assoc]
    have small : front.length+waiting.length+(starts scripts args).length ≤ names.length := by omega
    obtain ⟨m1,call,next⟩ := settled.command fits rounds turns args _ here
      ((Nat.mul_le_mul_left _ small).trans_lt enough) (stays args List.mem_cons_self)
    have later (args' : List Text) (member : args' ∈ commands) : readCommand args' ≠ .quit :=
      stays args' (List.mem_cons_of_mem _ member)
    have run : Paging.session z scripts (rounds+1) turns (args :: commands) m =
        Paging.session z scripts (rounds+1) turns commands m1 := by
      rw [Paging.session,List.foldlM_cons,call]
      rfl
    rw [run,ran,List.length_append]
    by_cases scheduled : schedules scripts args = true
    · rw [if_pos scheduled] at next ⊢
      have shift : (front ++ waiting ++ starts scripts args).length = front.length+waiting.length+(starts scripts args).length := by
        rw [List.length_append,List.length_append]
      obtain ⟨m2,rest,last⟩ := ih later (front ++ waiting ++ starts scripts args) []
        (by rw [split]; simp only [List.append_assoc,List.nil_append]) (by rw [shift]; exact next)
      refine ⟨m2,rest,?_⟩
      rw [shift,List.length_nil,Nat.add_zero] at last
      simp only [List.length_append,← Nat.add_assoc] at last ⊢
      exact last
    · rw [if_neg scheduled] at next ⊢
      have shift : front.length+(waiting ++ starts scripts args).length =
          front.length+waiting.length+(starts scripts args).length := by
        rw [List.length_append,Nat.add_assoc]
      obtain ⟨m2,rest,last⟩ := ih later front (waiting ++ starts scripts args)
        (by rw [split]; simp only [List.append_assoc]) (by rw [shift]; exact next)
      refine ⟨m2,rest,?_⟩
      rw [shift] at last
      rw [← Nat.add_assoc]
      exact last

/-- The files of the ready queue. -/
theorem Settled.filenames (settled : Settled z scripts names base done count m) :
    m.kernel.ready.map PCB.filename = (List.range' done (count-done)).map fun i => names.getD i [] := by
  obtain ⟨used,waiting,order,pids,state⟩ := settled
  have queue := state.queue
  rw [← pids,List.map_map]
  generalize m.kernel.ready = ready at queue
  clear state pids
  induction queue with
  | nil => rfl
  | cons runs _ ih => rw [List.map_cons,List.map_cons,ih,runs.filename,Function.comp_apply]

theorem Settled.history (settled : Settled z scripts names base done count m) : ∃ newer, m.history = newer ++ base ∧
    Interleaves (fun i => if i < done then lines (contents scripts (names.getD i [])) else []) (executedLines newer) := by
  obtain ⟨used,waiting,-,-,state⟩ := settled
  exact state.history

theorem Settled.begin (names : List Text) : Settled z scripts names [] 0 0 ⟨started z,[]⟩ := by
  refine ⟨0,[],le_rfl,rfl,⟨?_,?_,?_,List.nodup_nil,?_,⟨Nat.zero_le _,?_,?_⟩,rfl,Nat.zero_le _,[],rfl,?_⟩,List.Forall₂.nil⟩
  · exact fun p member => absurd member List.not_mem_nil
  · exact fun p member => absurd member List.not_mem_nil
  · exact fun p member => absurd member List.not_mem_nil
  · exact fun p member => absurd member List.not_mem_nil
  · intro j before
    rw [Nat.zero_mul] at before
    exact absurd before (Nat.not_lt_zero j)
  · intro j _ below
    have inside : j < z.shellMemLength := below.trans_le (Nat.le_add_left _ _)
    change (if j < z.shellMemLength then emptySlot 0 else emptySlot 0).var = noneText
    rw [if_pos inside]
    rfl
  · have empty : (fun i : Nat => if i < 0 then lines (contents scripts (names.getD i [])) else []) = fun _ => [] :=
      funext fun i => if_neg (Nat.not_lt_zero i)
    rw [empty]
    exact Interleaves.empty

end

theorem range_behind (front behind : List Text) :
    ((List.range' front.length ((front ++ behind).length-front.length)).map fun i => (front ++ behind).getD i []) = behind := by
  have length : (front ++ behind).length-front.length = behind.length := by
    rw [List.length_append,Nat.add_sub_cancel_left]
  rw [length]
  refine List.ext_getElem (by rw [List.length_map,List.length_range']) fun i _ inside => ?_
  rw [List.getElem_map,List.getElem_range',Nat.one_mul,List.getD_append_right _ _ _ _ (Nat.le_add_right _ _),
    Nat.add_sub_cancel_left,List.getD_eq_getElem _ _ inside]

theorem parts_front {α : Type} (part : Text → List α) (front behind : List Text) :
    (fun i => if i < front.length then part ((front ++ behind).getD i []) else []) = fun i => (front.map part).getD i [] := by
  funext i
  by_cases inside : i < front.length
  · rw [if_pos inside,List.getD_append _ _ _ _ inside,List.getD_eq_getElem _ _ inside,
      List.getD_eq_getElem _ _ (by rw [List.length_map]; exact inside),List.getElem_map]
  · rw [if_neg inside,List.getD_eq_default _ _ (by rw [List.length_map]; exact Nat.not_lt.mp inside)]

def sessionScripts (filename : Text) : Option Text :=
  if filename = ['p'] then some ['a','\n','b'] else if filename = ['q'] then some ['c'] else none

/-- Two scripts are run, and one waits since the other of its `exec` does not exist. -/
def sessionCommands : List (List Text) :=
  [[['e','x','e','c'],['p'],['q']],[['e','x','e','c'],['p'],['r']],[['s','e','t'],['x'],['1']]]

def threeFrames : Sizes := ⟨9,4⟩

theorem sessionScripts_script (filename : Text) (known : filename = ['p'] ∨ filename = ['q']) :
    Script threeFrames filename (contents sessionScripts filename) := by
  obtain rfl | rfl := known
  · exact ⟨⟨by decide,by decide,by decide,by decide⟩,by decide,by decide⟩
  · exact ⟨⟨by decide,by decide,by decide,by decide⟩,by decide,by decide⟩

section
variable {z : Sizes} {scripts : Text → Option Text} {text name : Nat → Text} {base : List Event} {total used : Nat}
  {progress : Nat → List Text} {m : Machine}

theorem executedLines_append (newer history : List Event) :
    executedLines (newer ++ history) = executedLines history ++ executedLines newer := by
  unfold executedLines
  rw [List.reverse_append,List.filterMap_append]

/-- When no process is left a new account can begin. -/
theorem Waiting.rebase (state : Waiting z text name base total used progress [] m) :
    Waiting z text name m.history total used (fun _ => []) [] m :=
  ⟨⟨fun _ member => absurd member List.not_mem_nil,fun _ member => absurd member List.not_mem_nil,
    fun _ member => absurd member List.not_mem_nil,List.nodup_nil,fun _ member => absurd member List.not_mem_nil,
    state.occupied,state.room,state.bound,[],rfl,Interleaves.empty⟩,state.queue⟩

/-- A script that runs alone is executed line by line. -/
theorem Waiting.alone (state : Waiting z text name base total used progress [] m) (rounds turns i : Nat)
    (found : scripts (name i) = some (text i)) (script : Script z (name i) (text i))
    (fits : total+pagesOf (text i) ≤ z.frameStoreSize) (enough : frameSize*pageTableSize+1 < turns) :
    ∃ m', run z scripts (rounds+1) turns false m (name i) = some (0,m') ∧ m'.kernel.ready = [] ∧
      executedLines m'.history = executedLines m.history ++ lines (text i) := by
  obtain ⟨used1,frames,m1,call,begun⟩ := state.rebase.start i found script fits List.not_mem_nil rfl
  have few := script.few
  obtain ⟨used2,progress2,m2,loops,last,all,others⟩ := begun.loop scripts rounds maxInt false turns (Or.inr (by decide))
    (by
      change (lines (text i)).length-0+1+0 < turns
      omega)
  obtain ⟨newer,history,interleaves⟩ := last.history
  have queue := last.queue
  refine ⟨m2,?_,?_,?_⟩
  · rw [run,call]
    dsimp only
    rw [if_neg (by decide),scheduleByPolicy,if_neg (fun unknown => unknown.1 rfl),if_neg Bool.false_ne_true,if_pos rfl,
      schedulerFCFS,loops]
    rfl
  · cases ready : m2.kernel.ready with
    | nil => rfl
    | cons pcb rest =>
      rw [ready] at queue
      cases queue
  · rw [history,executedLines_append]
    refine congrArg _ ((interleaves.alone i fun j other => ?_).trans (all ⟨i,frames,0⟩ List.mem_cons_self))
    exact others j fun member => other (List.mem_singleton.mp member)

end
end MyShell.Paging
