import Mathlib.Algebra.BigOperators.Group.List.Basic
import Mathlib.Algebra.Ring.Nat
import MyShell.Paging.Process

/-! The quanta of processes none of whose pages is evicted. The running process goes on line by line, and what the
processes have executed together interleaves their scripts. -/
namespace MyShell.Paging
open TextFile Interleaving

/-- The frame store holds the same lines. -/
def SameFrames (z : Sizes) (k k' : Kernel) : Prop :=
  ∀ j < z.threshold, (k'.shellmemory j).var = (k.shellmemory j).var ∧ (k'.shellmemory j).value = (k.shellmemory j).value

/-- Commands that leave the ready queue and the frame store alone. -/
def quietCommand : Command → Bool
  | .set _ _ => true
  | .resetmem => true
  | .other => true
  | .quit => false
  | .run _ => false

/-- The line comes back, and starts no process. -/
def quietLine (line : Text) : Bool :=
  match parseCommands line with
  | none => false
  | some commands => commands.all fun args => quietCommand (readCommand args)

/-- What a quiet line leaves of the machine. -/
structure Undisturbed (z : Sizes) (m m' : Machine) : Prop where
  history : m'.history = m.history
  ready : m'.kernel.ready = m.kernel.ready
  frames : SameFrames z m.kernel m'.kernel

section
variable {z : Sizes} (scripts : Text → Option Text) {m m' m'' : Machine}

theorem SameFrames.trans {k k' k'' : Kernel} (first : SameFrames z k k') (second : SameFrames z k' k'') :
    SameFrames z k k'' :=
  fun j below => ⟨(second j below).1.trans (first j below).1,(second j below).2.trans (first j below).2⟩

theorem Undisturbed.refl (m : Machine) : Undisturbed z m m := ⟨rfl,rfl,fun _ _ => ⟨rfl,rfl⟩⟩

theorem Undisturbed.trans (first : Undisturbed z m m') (second : Undisturbed z m' m'') : Undisturbed z m m'' :=
  ⟨second.history.trans first.history,second.ready.trans first.ready,first.frames.trans second.frames⟩

theorem memSetValue_ready (z : Sizes) (k : Kernel) (var value : Text) : (memSetValue z k var value).ready = k.ready := by
  unfold memSetValue
  split
  · rfl
  · split <;> rfl

theorem interpreter_quiet (m : Machine) (args : List Text) (quiet : quietCommand (readCommand args) = true) :
    ∃ m', interpreter z scripts m args = some m' ∧ Undisturbed z m m' := by
  unfold interpreter
  cases command : readCommand args with
  | quit =>
    rw [command] at quiet
    exact Bool.noConfusion quiet
  | run names =>
    rw [command] at quiet
    exact Bool.noConfusion quiet
  | set var value =>
    refine ⟨_,rfl,rfl,memSetValue_ready z m.kernel var value,fun j below => ?_⟩
    have same := memSetValue_frames z m.kernel var value j below
    exact ⟨congrArg MemoryStruct.var same,congrArg MemoryStruct.value same⟩
  | resetmem =>
    refine ⟨_,rfl,rfl,rfl,fun j below => ?_⟩
    have same : (variableStoreMemInit z m.kernel).shellmemory j = m.kernel.shellmemory j :=
      if_neg fun inside => Nat.not_le.mpr below inside.1
    exact ⟨congrArg MemoryStruct.var same,congrArg MemoryStruct.value same⟩
  | other => exact ⟨m,rfl,Undisturbed.refl m⟩

theorem runCommands_quiet (commands : List (List Text)) (m : Machine)
    (quiet : ∀ args ∈ commands, quietCommand (readCommand args) = true) :
    ∃ m', runCommands z scripts commands m = (true,m') ∧ Undisturbed z m m' := by
  induction commands generalizing m with
  | nil => exact ⟨m,rfl,Undisturbed.refl m⟩
  | cons args commands ih =>
    obtain ⟨m1,step,first⟩ := interpreter_quiet (z := z) scripts m args (quiet args List.mem_cons_self)
    obtain ⟨m2,run,second⟩ := ih m1 fun others member => quiet others (List.mem_cons_of_mem _ member)
    refine ⟨m2,?_,first.trans second⟩
    rw [runCommands,step]
    exact run

theorem parseInput_quiet (m : Machine) (line : Text) (quiet : quietLine line = true) :
    ∃ m', parseInput z scripts m line = (true,m') ∧ Undisturbed z m m' := by
  unfold quietLine at quiet
  unfold parseInput
  cases parsed : parseCommands line with
  | none =>
    rw [parsed] at quiet
    exact Bool.noConfusion quiet
  | some commands =>
    rw [parsed] at quiet
    exact runCommands_quiet scripts commands m (List.all_eq_true.mp quiet)

theorem stamp_undisturbed (m : Machine) (lineNum : Int) :
    Undisturbed z m {m with kernel := incrementLastused z m.kernel lineNum} := by
  unfold incrementLastused
  refine ⟨rfl,?_,fun j _ => ?_⟩
  · dsimp only
    split <;> rfl
  · dsimp only
    split
    · by_cases here : j = lineNum.toNat
      · subst here
        rw [setSlot_same]
        exact ⟨rfl,rfl⟩
      · rw [setSlot_other _ _ j _ here]
        exact ⟨rfl,rfl⟩
    · exact ⟨rfl,rfl⟩

end
/-- A script that is loaded to its end and starts no process. -/
structure Script (z : Sizes) (filename text : Text) : Prop extends Loads z text where
  named : filename ≠ noneText
  quiet : ∀ line ∈ lines text, quietLine line = true

/-- The pages of a script. -/
def pagesOf (text : Text) : Nat := ((lines text).length+(frameSize-1)) / frameSize

/-- The pages of a process that are still to be loaded. -/
def Process.missing (text : Nat → Text) (p : Process) : Nat := pagesOf (text p.pid)-p.frames.length

/-- The lines a process has yet to execute, and its end. -/
def Process.left (text : Nat → Text) (p : Process) : Nat := (lines (text p.pid)).length-p.next+1

/-- The processes `live` after a run in which no page was evicted: `total` frames suffice for them all, and since
`base` the machine has executed an interleaving of `progress`. -/
structure Live (z : Sizes) (text name : Nat → Text) (base : List Event) (total used : Nat) (progress : Nat → List Text)
    (live : List Process) (m : Machine) : Prop where
  script : ∀ p ∈ live, Script z (name p.pid) (text p.pid)
  sound : ∀ p ∈ live, p.Sound text used
  stored : ∀ p ∈ live, p.Stored text m.kernel
  distinct : (live.map Process.pid).Nodup
  passed : ∀ p ∈ live, progress p.pid = (lines (text p.pid)).take p.next
  occupied : Occupied z used m.kernel
  room : used+(live.map (Process.missing text)).sum = total
  bound : total ≤ z.frameStoreSize
  history : ∃ newer, m.history = newer ++ base ∧ Interleaves progress (executedLines newer)

/-- No process runs. -/
structure Waiting (z : Sizes) (text name : Nat → Text) (base : List Event) (total used : Nat) (progress : Nat → List Text)
    (waiting : List Process) (m : Machine) : Prop extends Live z text name base total used progress waiting m where
  queue : List.Forall₂ (Process.Runs text name) waiting m.kernel.ready

/-- The process `p` runs. -/
structure Running (z : Sizes) (text name : Nat → Text) (base : List Event) (total used : Nat) (progress : Nat → List Text)
    (p : Process) (pcb : PCB) (waiting : List Process) (m : Machine) : Prop
    extends Live z text name base total used progress (p :: waiting) m where
  runs : p.Runs text name pcb
  queue : List.Forall₂ (Process.Runs text name) waiting m.kernel.ready

section
variable {z : Sizes} (scripts : Text → Option Text) {text name : Nat → Text} {base : List Event} {total used : Nat}
  {progress : Nat → List Text} {p : Process} {pcb : PCB} {live waiting : List Process} {m m' : Machine}

theorem Live.perm {others : List Process} (state : Live z text name base total used progress live m)
    (same : others.Perm live) : Live z text name base total used progress others m := by
  refine ⟨fun p member => state.script p (same.mem_iff.mp member),fun p member => state.sound p (same.mem_iff.mp member),
    fun p member => state.stored p (same.mem_iff.mp member),?_,fun p member => state.passed p (same.mem_iff.mp member),
    state.occupied,?_,state.bound,state.history⟩
  · exact (same.map Process.pid).nodup_iff.mpr state.distinct
  · rw [(same.map (Process.missing text)).sum_eq]
    exact state.room

/-- What stands in the frames that are taken. -/
theorem Live.inside (state : Live z text name base total used progress live m) (member : p ∈ live) (n i : Nat)
    (page : n < p.frames.length) (small : i < frameSize) : p.frame n*frameSize+i < z.threshold := by
  have below := (state.sound p member).below n page
  have room := state.occupied.room
  simp only [frameSize] at small room ⊢
  omega

theorem Live.congr (state : Live z text name base total used progress live m) (history : m'.history = m.history)
    (frames : SameFrames z m.kernel m'.kernel) : Live z text name base total used progress live m' := by
  refine ⟨state.script,state.sound,fun p member => ⟨fun n page i small => ?_⟩,state.distinct,state.passed,
    state.occupied.congr fun j below => (frames j below).1,state.room,state.bound,?_⟩
  · rw [(frames _ (state.inside member n i page small)).2]
    exact (state.stored p member).slots n page i small
  · rw [history]
    exact state.history

theorem Running.undisturbed (state : Running z text name base total used progress p pcb waiting m)
    (same : Undisturbed z m m') : Running z text name base total used progress p pcb waiting m' := by
  refine ⟨state.toLive.congr same.history same.frames,state.runs,?_⟩
  rw [same.ready]
  exact state.queue

theorem executedLines_loaded (start : Nat) (history : List Event) :
    executedLines (.loaded start :: history) = executedLines history := by
  unfold executedLines
  rw [List.reverse_cons,List.filterMap_append]
  exact List.append_nil _

theorem executedLines_executed (slot : Int) (line : Text) (history : List Event) :
    executedLines (.executed slot line :: history) = executedLines history ++ [line] := by
  unfold executedLines
  rw [List.reverse_cons,List.filterMap_append]
  rfl

/-- A load keeps the order of the frames. -/
theorem Process.Sound.loaded (sound : p.Sound text used) (more : frameSize*p.frames.length < (lines (text p.pid)).length) :
    (p.loaded used).Sound text (used+1) := by
  have reached := sound.reached
  refine ⟨fun i j before inside => ?_,fun i inside => ?_,?_,sound.within,?_⟩
  · rw [p.loaded_length] at inside
    rw [p.loaded_before used i (by omega)]
    obtain inside | rfl := Nat.lt_succ_iff_lt_or_eq.mp inside
    · rw [p.loaded_before used j inside]
      exact sound.ascending i j before inside
    · rw [p.loaded_last]
      exact sound.below i before
  · rw [p.loaded_length] at inside
    obtain inside | rfl := Nat.lt_succ_iff_lt_or_eq.mp inside
    · rw [p.loaded_before used i inside]
      exact Nat.lt_succ_of_lt (sound.below i inside)
    · rw [p.loaded_last]
      exact Nat.lt_succ_self _
  · rw [p.loaded_length,Nat.mul_succ]
    exact reached.trans (Nat.le_add_right _ _)
  · rw [p.loaded_length,Nat.add_sub_cancel]
    exact more

theorem Process.Sound.mono {more : Nat} (sound : p.Sound text used) (grows : used ≤ more) : p.Sound text more :=
  {sound with below := fun i inside => (sound.below i inside).trans_le grows}

/-- There is a frame for each page that is missing. -/
theorem Live.free (state : Live z text name base total used progress (p :: waiting) m)
    (more : frameSize*p.frames.length < (lines (text p.pid)).length) : used < z.frameStoreSize := by
  have room := state.room
  have bound := state.bound
  have missing : 0 < p.missing text := by
    unfold Process.missing pagesOf
    simp only [frameSize] at more ⊢
    omega
  rw [List.map_cons,List.sum_cons] at room
  omega

/-- The running process gets its next page into a free frame. -/
theorem Live.grown (state : Live z text name base total used progress (p :: waiting) m)
    (more : frameSize*p.frames.length < (lines (text p.pid)).length)
    (grown : Grown z used (text p.pid) p.frames.length m m') :
    Live z text name base total (used+1) progress (p.loaded used :: waiting) m' := by
  have sound := state.sound p List.mem_cons_self
  have apart (q : Process) (n i : Nat) (below : q.frame n < used) (small : i < frameSize) :
      (q.frame n*frameSize+i) / frameSize ≠ used := by
    simp only [frameSize] at small ⊢
    omega
  refine ⟨?_,?_,?_,state.distinct,?_,grown.occupied,?_,state.bound,?_⟩
  · rintro q (_ | ⟨_,member⟩)
    · exact state.script p List.mem_cons_self
    · exact state.script q (List.mem_cons_of_mem _ member)
  · rintro q (_ | ⟨_,member⟩)
    · exact sound.loaded more
    · exact (state.sound q (List.mem_cons_of_mem _ member)).mono (Nat.le_succ _)
  · rintro q (_ | ⟨_,member⟩)
    · refine ⟨fun n inside i small => ?_⟩
      rw [p.loaded_length] at inside
      obtain inside | rfl := Nat.lt_succ_iff_lt_or_eq.mp inside
      · rw [p.loaded_before used n inside,grown.others _ (apart p n i (sound.below n inside) small)]
        exact (state.stored p List.mem_cons_self).slots n inside i small
      · rw [p.loaded_last]
        exact grown.slots i small
    · refine ⟨fun n inside i small => ?_⟩
      have below := (state.sound q (List.mem_cons_of_mem _ member)).below n inside
      rw [grown.others _ (apart q n i below small)]
      exact (state.stored q (List.mem_cons_of_mem _ member)).slots n inside i small
  · rintro q (_ | ⟨_,member⟩)
    · exact state.passed p List.mem_cons_self
    · exact state.passed q (List.mem_cons_of_mem _ member)
  · have room := state.room
    have fewer : (p.loaded used).missing text+1 = p.missing text := by
      unfold Process.missing pagesOf
      rw [p.loaded_length]
      change (lines (text p.pid)).length.add _ / _ - _+1 = _
      simp only [frameSize,Nat.add_eq] at more ⊢
      omega
    rw [List.map_cons,List.sum_cons] at room ⊢
    omega
  · obtain ⟨newer,split,interleaves⟩ := state.history
    refine ⟨.loaded (used*frameSize) :: newer,?_,?_⟩
    · rw [grown.history,split,List.cons_append]
    · rw [executedLines_loaded]
      exact interleaves

/-- At a page fault the waiting processes are rotated. -/
theorem Running.interrupt (state : Running z text name base total used progress p pcb waiting m) :
    ∃ rotated, rotated.Perm waiting ∧ Running z text name base total used progress p pcb rotated (interrupt m) := by
  have queue := state.queue
  unfold Paging.interrupt
  cases ready : m.kernel.ready with
  | nil => exact ⟨waiting,List.Perm.refl _,state⟩
  | cons first rest =>
    rw [ready] at queue
    cases queue with
    | cons runs others =>
      rename_i q processes
      have rotation : (processes ++ [q]).Perm (q :: processes) := List.perm_append_singleton q processes
      refine ⟨processes ++ [q],rotation,?_,state.runs,List.rel_append others (List.Forall₂.cons runs List.Forall₂.nil)⟩
      exact (state.toLive.perm (rotation.cons p)).congr rfl fun _ _ => ⟨rfl,rfl⟩

/-- The process `p` has turned to the page of its next line. -/
structure Ready (z : Sizes) (text name : Nat → Text) (base : List Event) (total used : Nat) (progress : Nat → List Text)
    (p : Process) (pcb : PCB) (waiting : List Process) (m : Machine) : Prop
    extends Live z text name base total used progress (p :: waiting) m where
  turned : p.Turned text name pcb
  queue : List.Forall₂ (Process.Runs text name) waiting m.kernel.ready

theorem Process.Sound.whole (sound : p.Sound text used) (behind : p.frames.length ≤ p.next / frameSize) :
    p.next = frameSize*p.frames.length := by
  have reached := sound.reached
  simp only [frameSize] at reached behind ⊢
  omega

/-- Before its last line a process turns to the page of its next line. -/
theorem Running.turn (state : Running z text name base total used progress p pcb waiting m)
    (more : p.next < (lines (text p.pid)).length) :
    ∃ used' frames rotated m' pcb', rotated.Perm waiting ∧
      turnPage z m pcb p.page = (.ready,p.next / frameSize,m',pcb') ∧
      Ready z text name base total used' progress {p with frames := frames} pcb' rotated m' := by
  have sound := state.sound p List.mem_cons_self
  have script := state.script p List.mem_cons_self
  have room : used ≤ z.frameStoreSize := state.occupied.within
  by_cases inside : p.next = 0 ∨ p.next % frameSize ≠ 0
  · obtain ⟨stays,turned⟩ := state.runs.stays (z := z) (m := m) sound inside
    exact ⟨used,p.frames,waiting,m,pcb,List.Perm.refl _,stays,state.toLive,turned,state.queue⟩
  obtain ⟨positive,whole⟩ := not_or.mp inside
  by_cases resident : p.next / frameSize < p.frames.length
  · obtain ⟨pcb',turns,turned⟩ := state.runs.turns (m := m) sound script.toLoads room positive (not_not.mp whole) resident
    exact ⟨used,p.frames,waiting,m,pcb',List.Perm.refl _,turns,state.toLive,turned,state.queue⟩
  · have full := sound.whole (Nat.not_lt.mp resident)
    obtain ⟨rotated,same,next⟩ := state.interrupt
    have free := state.toLive.free (by rw [← full]; exact more)
    obtain ⟨m',pcb',turns,turned,grown⟩ := state.runs.faults sound script.toLoads script.named state.occupied free full more
    refine ⟨used+1,_,rotated,m',pcb',same,turns,next.toLive.grown (by rw [← full]; exact more) grown,turned,?_⟩
    rw [grown.ready]
    exact next.queue

/-- One line further. -/
def Process.advance (p : Process) : Process := {p with next := p.next+1}

theorem Ready.execute (state : Ready z text name base total used progress p pcb waiting m)
    (more : p.next < (lines (text p.pid)).length) :
    ∃ m' pcb', executeLine z scripts m pcb = (.ready,m',pcb') ∧
      Running z text name base total used
        (Function.update progress p.pid ((lines (text p.pid)).take (p.next+1))) p.advance pcb' waiting m' := by
  have sound := state.sound p List.mem_cons_self
  have script := state.script p List.mem_cons_self
  have turned := state.turned
  have read := turned.slot sound (state.stored p List.mem_cons_self) state.occupied.within
  have here : (lines (text p.pid))[p.next]? = some (lines (text p.pid))[p.next] := List.getElem?_eq_getElem more
  rw [List.getD_eq_getElem?_getD,here,Option.getD_some] at read
  have member : (lines (text p.pid))[p.next] ∈ lines (text p.pid) := List.getElem_mem more
  have longer : (lines (text p.pid)).take (p.next+1) = (lines (text p.pid)).take p.next ++ [(lines (text p.pid))[p.next]] :=
    (List.take_append_getElem more).symm
  generalize (lines (text p.pid))[p.next] = line at read member longer here
  obtain ⟨m1,parsed,quiet⟩ := parseInput_quiet (z := z) scripts
    {m with history := .executed pcb.pc line :: m.history} line (script.quiet line member)
  have counted : pcb.pc+1-1 = pcb.pc := Int.add_sub_cancel _ _
  have passed := state.passed p List.mem_cons_self
  have others (q : Process) (waits : q ∈ waiting) : q.pid ≠ p.pid := by
    have distinct := state.distinct
    rw [List.map_cons,List.nodup_cons] at distinct
    exact fun same => distinct.1 (List.mem_map.mpr ⟨q,waits,same⟩)
  have stamped := quiet.trans (stamp_undisturbed m1 pcb.pc)
  refine ⟨{m1 with kernel := incrementLastused z m1.kernel pcb.pc},{pcb with pc := pcb.pc+1},?_,?_,
    ⟨⟨turned.file,turned.filename,turned.entry,turned.missing⟩,Nat.zero_lt_of_lt turned.resident,?_⟩,?_⟩
  · rw [executeLine,read]
    dsimp only
    rw [if_neg (script.short line member).2.2,counted,parsed]
  · refine ⟨?_,?_,?_,state.distinct,?_,state.occupied.congr fun j below => (stamped.frames j below).1,state.room,
      state.bound,?_⟩
    · rintro q (_ | ⟨_,waits⟩)
      · exact script
      · exact state.script q (List.mem_cons_of_mem _ waits)
    · rintro q (_ | ⟨_,waits⟩)
      · refine ⟨sound.ascending,sound.below,?_,more,sound.needed⟩
        have resident := turned.resident
        change p.next+1 ≤ frameSize*p.frames.length
        simp only [frameSize] at resident ⊢
        omega
      · exact state.sound q (List.mem_cons_of_mem _ waits)
    · rintro q member
      refine ⟨fun n page i small => ?_⟩
      obtain ⟨r,waits,frame,pid,length⟩ : ∃ r ∈ p :: waiting, q.frame = r.frame ∧ q.pid = r.pid ∧
          q.frames.length = r.frames.length := by
        obtain _ | ⟨_,waits⟩ := member
        · exact ⟨p,List.mem_cons_self,rfl,rfl,rfl⟩
        · exact ⟨q,List.mem_cons_of_mem _ waits,rfl,rfl,rfl⟩
      rw [length] at page
      rw [frame,pid,(stamped.frames _ (state.inside waits n i page small)).2]
      exact (state.stored r waits).slots n page i small
    · rintro q (_ | ⟨_,waits⟩)
      · exact Function.update_self _ _ _
      · exact (Function.update_of_ne (others q waits) _ _).trans (state.passed q (List.mem_cons_of_mem _ waits))
    · obtain ⟨newer,split,interleaves⟩ := state.history
      refine ⟨.executed pcb.pc line :: newer,?_,?_⟩
      · rw [stamped.history,split]
        rfl
      · rw [executedLines_executed,longer,← passed]
        exact interleaves.snoc p.pid line
  · have pc := turned.pc
    have page : p.advance.page = p.next / frameSize := rfl
    change pcb.pc+1 = (p.frame p.advance.page : Int)*frameSize+((p.next+1-p.advance.page*frameSize : Nat) : Int)
    rw [pc,page]
    simp only [frameSize]
    omega
  · rw [stamped.ready]
    exact state.queue

theorem Process.Sound.whole_missing (sound : p.Sound text used) (done : p.next = (lines (text p.pid)).length) :
    p.missing text = 0 := by
  have reached := sound.reached
  unfold Process.missing pagesOf
  rw [← done]
  simp only [frameSize] at reached ⊢
  omega

theorem Live.drop (state : Live z text name base total used progress (p :: live) m)
    (done : p.next = (lines (text p.pid)).length) : Live z text name base total used progress live m := by
  have room := state.room
  rw [List.map_cons,List.sum_cons,(state.sound p List.mem_cons_self).whole_missing done,Nat.zero_add] at room
  exact ⟨fun q member => state.script q (List.mem_cons_of_mem _ member),
    fun q member => state.sound q (List.mem_cons_of_mem _ member),
    fun q member => state.stored q (List.mem_cons_of_mem _ member),(List.nodup_cons.mp state.distinct).2,
    fun q member => state.passed q (List.mem_cons_of_mem _ member),state.occupied,room,state.bound,state.history⟩

/-- Behind its last line a process ends, at the padding or for want of a page. -/
theorem Running.ended (state : Running z text name base total used progress p pcb waiting m)
    (done : p.next = (lines (text p.pid)).length) (quanta : Nat) :
    ∃ rotated m' pcb', rotated.Perm waiting ∧
      executeLines z scripts (quanta+1) p.page m pcb = (.terminated,m',pcb') ∧
      Waiting z text name base total used progress rotated m' := by
  have sound := state.sound p List.mem_cons_self
  have script := state.script p List.mem_cons_self
  have positive : 0 < (lines (text p.pid)).length := List.length_pos_of_ne_nil script.filled
  by_cases whole : p.next % frameSize = 0
  · have needed := sound.needed
    have full : p.next = frameSize*p.frames.length := by
      refine sound.whole ?_
      simp only [frameSize] at needed whole ⊢
      omega
    obtain ⟨pageNum,m',pcb',turns,same⟩ := state.runs.ends (z := z) (m := m) sound full done
    have call : executeLines z scripts (quanta+1) p.page m pcb = (.terminated,m',pcb') := by
      rw [executeLines,turns]
    obtain rfl | rfl := same
    · exact ⟨waiting,m',pcb',List.Perm.refl _,call,state.toLive.drop done,state.queue⟩
    · obtain ⟨rotated,order,next⟩ := state.interrupt
      exact ⟨rotated,_,pcb',order,call,next.toLive.drop done,next.queue⟩
  · obtain ⟨stays,turned⟩ := state.runs.stays (z := z) (m := m) sound (Or.inr whole)
    have read := turned.slot sound (state.stored p List.mem_cons_self) state.occupied.within
    rw [List.getD_eq_getElem?_getD,List.getElem?_eq_none (Nat.le_of_eq done.symm),Option.getD_none] at read
    refine ⟨waiting,m,{pcb with pc := pcb.pc+1},List.Perm.refl _,?_,state.toLive.drop done,state.queue⟩
    simp only [executeLines,stays,executeLine,read,if_true]

/-- One call of a process: it goes on by its quanta, or executes the rest of its script and ends. -/
theorem Running.quantum (quanta : Nat) (state : Running z text name base total used progress p pcb waiting m) :
    ∃ used' progress' rotated m' pcb', rotated.Perm waiting ∧ (∀ i, i ≠ p.pid → progress' i = progress i) ∧
      ((∃ frames, executeLines z scripts quanta p.page m pcb = (.ready,m',pcb') ∧
          Running z text name base total used' progress' ⟨p.pid,frames,p.next+quanta⟩ pcb' rotated m') ∨
        ((lines (text p.pid)).length < p.next+quanta ∧
          executeLines z scripts quanta p.page m pcb = (.terminated,m',pcb') ∧
          progress' p.pid = lines (text p.pid) ∧
          Waiting z text name base total used' progress' rotated m')) := by
  induction quanta generalizing used progress p pcb waiting m with
  | zero => exact ⟨used,progress,waiting,m,pcb,List.Perm.refl _,fun _ _ => rfl,Or.inl ⟨p.frames,rfl,state⟩⟩
  | succ quanta ih =>
    have within := (state.sound p List.mem_cons_self).within
    obtain more | done := Nat.lt_or_eq_of_le within
    · obtain ⟨used1,frames,rotated1,m1,pcb1,order1,turns,ready⟩ := state.turn more
      obtain ⟨m2,pcb2,executes,next⟩ := ready.execute scripts more
      obtain ⟨used3,progress3,rotated3,m3,pcb3,order3,others,outcome⟩ := ih next
      have call : executeLines z scripts (quanta+1) p.page m pcb =
          executeLines z scripts quanta (p.next / frameSize) m2 pcb2 := by
        rw [executeLines,turns]
        dsimp only
        rw [executes]
      have counted : p.next+1+quanta = p.next+(quanta+1) := by omega
      refine ⟨used3,progress3,rotated3,m3,pcb3,order3.trans order1,fun i other => ?_,?_⟩
      · exact (others i other).trans (Function.update_of_ne other _ _)
      · rw [call]
        obtain ⟨frames3,runs,state3⟩ | ⟨less,ends,all,state3⟩ := outcome
        · exact Or.inl ⟨frames3,runs,counted ▸ state3⟩
        · exact Or.inr ⟨counted ▸ less,ends,all,state3⟩
    · obtain ⟨rotated,m',pcb',order,call,next⟩ := state.ended scripts done quanta
      refine ⟨used,progress,rotated,m',pcb',order,fun _ _ => rfl,Or.inr ⟨by omega,call,?_,next⟩⟩
      rw [state.passed p List.mem_cons_self,done,List.take_length]

theorem Running.executeProcess (rounds quanta : Nat)
    (state : Running z text name base total used progress p pcb waiting m) :
    executeProcess z scripts (rounds+1) quanta m pcb = executeLines z scripts quanta p.page m pcb := by
  rw [Paging.executeProcess,locate_running state.runs (state.sound p List.mem_cons_self)
    (state.script p List.mem_cons_self).toLoads]

end
end MyShell.Paging
