import MyShell.FS.FailedCreate
import MyShell.FS.Opening
import MyShell.FS.Undo
import Mathlib.Data.List.GetD

/-! `copy_in` and `copy_out` of fsutil2.c. The file outside is the list of its bytes; whether
there is one, and memory for a buffer, are arguments. -/
namespace MyShell.FS
open BlockProgram PointerForest Bitmap

/-- `copy_in` once the bytes are in the buffer, which has one more that is not set. The
result is none at the end of the function, which returns no value there. -/
def storeBuffer (stale : List Byte) (fname : CString) (source : List Byte) (last : Byte) : FsM (Option Int) := do
  let created ← filesysCreate stale fname (i32 source.length) false
  if created then do
    let dest ← filesysOpen fname
    match dest with
    | none => pure (some 10)
    | some dest => do
      let bytesWritten ← fileWrite dest (source ++ [last]) (i32 (source.length + 1))
      if bytesWritten ≠ source.length + 1 then do
        fileClose (some dest)
        pure (some 11)
      else do
        fileSeek dest (bytesWritten - 2)
        fileClose (some dest)
        pure none
  else pure (some 9)

def copyIn (stale : List Byte) (fname : CString) (source : Option (List Byte)) (last : Byte) (memory : Bool) :
    FsM (Option Int) :=
  match source with
  | none => pure (some 0)
  | some source => if memory then storeBuffer stale fname source last else pure (some 1)

/-- The null bytes of the file are left out. -/
def keptBytes (buffer : List Byte) : List Byte := buffer.filter (· ≠ 0)

/-- The code, and the bytes of the file outside if it is written. -/
def copyOut (fname : CString) (memory writable : Bool) : FsM (Int × Option (List Byte)) := do
  let source ← filesysOpen fname
  match source with
  | none => pure (0,none)
  | some source => do
    let size ← fileLength source
    if size < 0 then do
      fileClose (some source)
      pure (10,none)
    else if memory then do
      let buffer ← fileRead source size
      if buffer.length ≠ size then do
        fileClose (some source)
        pure (12,none)
      else do
        fileClose (some source)
        if writable then pure (0,some (keptBytes buffer)) else pure (9,none)
    else do
      fileClose (some source)
      pure (1,none)

/-- A file system in which the files of `owner` are laid out without overlap, and anything
but the root directory may be open. -/
structure Standing (reserved dirty owner : Nat → Prop) (s : Volume) : Prop where
  layout : Layout reserved owner s.device s
  ready : Ready reserved dirty s
  origin : reserved freeMapSector
  owns : owner rootDirSector
  root : RootArray (rootArray s)
  closed : RootClosed s.vars.handles
  held : ∀ g, s.vars.handles.freeMapFile = some g → ∃ c, s.vars.handles.files.cell g = some c
  marked : ∀ p ∈ s.vars.handles.openInodes, bitmapTest s.vars.freeMap (s.vars.handles.inode p).sector = true

section
variable {reserved dirty owner : Nat → Prop} {img : Nat → Sector} {s t v : Volume} {h h₀ : Handles} {x p f i : Nat}
  {path name : CString} {data : Sector} {pos : Int}

/-- A file that was just opened stays out of the way of the free map file. -/
theorem NewFile.apart (new : NewFile h₀ h f p x data pos) (live : Live h₀)
    (held : ∀ g, h₀.freeMapFile = some g → ∃ c, h₀.files.cell g = some c) (g : Nat) (pointer : h₀.freeMapFile = some g) :
    h.file g = h₀.file g ∧ (h₀.file g).inode ≠ p ∧ h.inode (h₀.file g).inode = h₀.inode (h₀.file g).inode := by
  obtain ⟨c,cell⟩ := held g pointer
  obtain ⟨j,cell'⟩ := live g pointer
  have file : g ≠ f := by
    rintro rfl
    rw [new.file] at cell
    exact Option.some_ne_none _ cell.symm
  have inode : (h₀.file g).inode ≠ p := by
    intro same
    rw [same,new.inode] at cell'
    exact Option.some_ne_none _ cell'.symm
  refine ⟨congrArg (fun c : Option File => c.getD default) ?_,inode,congrArg (fun c : Option Inode => c.getD default) ?_⟩
  · rw [new.files,Function.update_of_ne file]
  · rw [new.inodes,Function.update_of_ne inode]

/-- Readiness is the same with the file open and with it closed. -/
theorem NewFile.ready (new : NewFile h₀ h f p x data pos) (live : Live h₀)
    (held : ∀ g, h₀.freeMapFile = some g → ∃ c, h₀.files.cell g = some c) (ready : Ready reserved dirty s) :
    (s.vars.handles = h₀ → Ready reserved dirty (withHandles s h)) ∧
      ∀ h', s.vars.handles = h → h₀.Same h' → Ready reserved dirty (withHandles s h') := by
  constructor
  · rintro rfl
    refine ready.rehandle new.freeMapFile fun g pointer => ?_
    obtain ⟨file,-,inode⟩ := new.apart live held g pointer
    rw [file,inode]
  · rintro h' rfl same
    refine ready.rehandle (same.freeMapFile.trans new.freeMapFile.symm) fun g pointer => ?_
    obtain ⟨file,-,inode⟩ := new.apart live held g (new.freeMapFile.symm.trans pointer)
    rw [same.file_eq,same.inode_eq,file,inode]

theorem NewFile.holds (new : NewFile s.vars.handles h f p x (s.device x) pos) (live : Live s.vars.handles)
    (held : ∀ g, s.vars.handles.freeMapFile = some g → ∃ c, s.vars.handles.files.cell g = some c) :
    Holds s.device (withHandles s h) p x (readInode x (s.device x)) := by
  refine ⟨new.inodeCell,rfl,rfl,rfl,fun g pointer => ?_⟩
  obtain ⟨file,apart,-⟩ := new.apart live held g (new.freeMapFile.symm.trans pointer)
  exact (congrArg File.inode file).trans_ne apart

/-- `file_write` to a file that was just opened. -/
theorem NewFile.write (new : NewFile s.vars.handles h f p x (s.device x) 0) (layout : Layout reserved owner s.device s)
    (ready : Ready reserved dirty s) (origin : reserved 0) (owns : owner x) (live : Live s.vars.handles)
    (held : ∀ g, s.vars.handles.freeMapFile = some g → ∃ c, s.vars.handles.files.cell g = some c) (buffer : List Byte)
    (n : Nat) (some : 0 < n) (bound : n < 2147483648) :
    ∃ done v d next, (fileWrite f buffer n).exec (withHandles s h) =
        (if done = true ∧ n ≤ 8517120 then (n : Int) else 0,v) ∧
      NewFile s.vars.handles v.vars.handles f p x d next ∧
      ∀ h', s.vars.handles.Same h' → Stored reserved dirty owner s (withHandles v h') x (buffer.set (n-1) 0) 0 n done := by
  have holds := new.holds live held
  obtain ⟨write,isWrite,steps⟩ := inodeWriteAt_step (withHandles s h)
  have start := steps p (buffer.set (n-1) 0) n 0
  obtain ⟨done,v,d,run,outcome⟩ := writeStep_spec isWrite (layout.congr (t := withHandles s h) rfl rfl)
    ((new.ready live held ready).1 rfl) origin owns holds (buffer.set (n-1) 0) 0 n some (by omega)
  rw [Nat.zero_add] at run
  have last : ((n : Int) - 1).toNat = n - 1 := by omega
  have worked : NewFile s.vars.handles v.vars.handles f p x d 0 := by
    rw [outcome.handles]
    exact new.setData d
  have file : h.file f = ⟨p,0,false⟩ := ObjectHeap.deref_of_cell _ _ _ new.cell
  generalize count : (if done = true ∧ n ≤ 8517120 then (n : Int) else 0) = written at run
  refine ⟨done,withHandles v (v.vars.handles.setPos f (i32 (0 + (written - 2)))),d,_,?_,worked.setPos _,fun h' same => ?_⟩
  · have moved : (v.vars.handles.files.modify f fun c => {c with pos := i32 (c.pos + (written - 2))}) =
        v.vars.handles.files.modify f fun c => {c with pos := i32 (0 + (written - 2))} := by
      unfold ObjectHeap.modify
      simp only [ObjectHeap.mk.injEq,and_true]
      rw [worked.cell,Option.map_some,Option.map_some]
    have handles : (withHandles s h).vars.handles = h := rfl
    have wrote : (FS.inodeWriteAt p (buffer.set (n-1) 0) n 0).exec (withHandles s h) = (written,v) := start.trans run
    unfold fileWrite
    simp only [Task.exec_bind,exec_getHandles,handles,file,last,wrote,exec_modifyFile,Task.exec_pure]
    rw [moved,count]
    rfl
  · exact outcome.stored h' ((worked.ready live held outcome.ready).2 h' rfl same)

/-- `file_seek` before the start of the file only prints a message more. -/
theorem exec_fileSeek_any (s : Volume) (f : Nat) (next : Int) : ∃ panics, (fileSeek f next).exec s =
    ((),withHandles ⟨{s.vars with panics := panics},s.device⟩ (s.vars.handles.setPos f next)) := by
  unfold fileSeek panicUnless
  cases decide (0 ≤ next) with
  | true => exact ⟨s.vars.panics,rfl⟩
  | false => exact ⟨s.vars.panics + 1,rfl⟩

/-- A write over a whole array that is no longer. -/
theorem arrayWrite_whole (a buffer : List Byte) (short : a.length ≤ buffer.length) :
    arrayWrite a buffer 0 buffer.length = buffer := by
  apply List.ext_getElem
  · rw [length_arrayWrite]
    omega
  · intro i left right
    rw [getElem_arrayWrite,if_pos ⟨Nat.zero_le i,by omega⟩,List.getD_eq_getElem _ _ (by omega)]
    rfl

theorem Standing.apart (standing : Standing reserved dirty owner s) (clear : bitmapTest s.vars.freeMap x = false) :
    x ≠ rootDirSector := by
  rintro rfl
  exact Bool.false_ne_true (clear.symm.trans (standing.layout.marked _ standing.owns))

theorem Standing.unopened (standing : Standing reserved dirty owner s) (clear : bitmapTest s.vars.freeMap x = false) :
    s.vars.handles.Unopened x := by
  rintro p opened rfl
  exact Bool.false_ne_true (clear.symm.trans (standing.marked p opened))

theorem Mounted.standing (mounted : Mounted reserved dirty s) : Standing reserved dirty (Owns (rootArray s)) s := by
  refine ⟨mounted.layout,mounted.ready,mounted.origin,owns_root,mounted.root,mounted.idle.closed,fun g pointer => ?_,
    fun p opened => ?_⟩
  · obtain ⟨f,q,i,map⟩ := mounted.idle.mapped
    obtain rfl := Option.some.inj (pointer.symm.trans map.pointer)
    exact ⟨_,map.held⟩
  · rw [mounted.idle.only p opened]
    exact mounted.ready.origin

/-- What `copy_in` leaves once the file is created. Only a `full` copy holds the bytes. -/
structure CopiedIn (reserved owner : Nat → Prop) (s t : Volume) (name : CString) (source : List Byte) (x : Nat)
    (full : Bool) : Prop where
  same : s.vars.handles.Same t.vars.handles
  layout : Layout reserved (fun z => owner z ∨ z = x) t.device t
  named : sectorOf t name = some x
  clear : bitmapTest s.vars.freeMap x = false
  fewer : t.vars.freeMap.clearCount < s.vars.freeMap.clearCount
  bytes : full = true → contents (t.device x) t.device = source ++ [0]
  enough : (source.length : Int) + 1 ≤ 8517120 → 1 + blocksFor source.length + rootGrowth s.device +
    blocksFor (source.length + 1) ≤ s.vars.freeMap.clearCount → full = true

theorem exec_storeBuffer_refused {stale source : List Byte} {fname : CString} {last : Byte}
    (created : (filesysCreate stale fname (i32 source.length) false).exec s = (false,t)) :
    (storeBuffer stale fname source last).exec s = (some 9,t) := by
  unfold storeBuffer
  rw [Task.exec_bind,created]
  rfl

theorem exec_storeBuffer {stale source : List Byte} {fname : CString} {last : Byte} {u v : Volume} {written : Int}
    (created : (filesysCreate stale fname (i32 source.length) false).exec s = (true,t))
    (opening : (filesysOpen fname).exec t = (some f,u))
    (writing : (fileWrite f (source ++ [last]) (i32 (source.length + 1))).exec u = (written,v)) :
    (storeBuffer stale fname source last).exec s =
      if written ≠ source.length + 1 then (some 11,((fileClose (some f)).exec v).2)
      else (none,((fileClose (some f)).exec ((fileSeek f (written - 2)).exec v).2).2) := by
  unfold storeBuffer
  rw [Task.exec_bind,created]
  simp only [if_true]
  rw [Task.exec_bind,opening]
  simp only
  rw [Task.exec_bind,writing]
  simp only
  split
  · rw [Task.exec_bind]
    rfl
  · rw [Task.exec_bind,Task.exec_bind]
    rfl

/-- The write of `copy_in` and what follows it, on the file that was just opened. -/
theorem NewFile.finish {d : Sector} {next : Int} (new : NewFile h₀ v.vars.handles f p x d next) (written wanted : Int) :
    ∃ h' panics, h₀.Same h' ∧
      (if written ≠ wanted then (some 11,((fileClose (some f)).exec v).2)
        else (none,((fileClose (some f)).exec ((fileSeek f (written - 2)).exec v).2).2)) =
      (if written = wanted then none else some (11 : Int),withHandles ⟨{v.vars with panics := panics},v.device⟩ h') := by
  by_cases full : written = wanted
  · obtain ⟨panics,seek⟩ := exec_fileSeek_any v f (written - 2)
    obtain ⟨h',close,same⟩ := (new.setPos (written - 2)).close
      (s := withHandles ⟨{v.vars with panics := panics},v.device⟩ (v.vars.handles.setPos f (written - 2))) rfl
    refine ⟨h',panics,same,?_⟩
    rw [if_neg (not_not_intro full),if_pos full,seek,close]
    rfl
  · obtain ⟨h',close,same⟩ := new.close (s := v) rfl
    refine ⟨h',v.vars.panics,same,?_⟩
    rw [if_pos full,if_neg full,close]

/-- A file that is not open is opened by a path to its name. -/
theorem open_named (layout : Layout reserved owner s.device s) (owns : owner rootDirSector)
    (closed : RootClosed s.vars.handles) (names : NamesEntry path) (named : sectorOf s (lastName path) = some x)
    (apart : x ≠ rootDirSector) (unopened : s.vars.handles.Unopened x) :
    ∃ f p h, (filesysOpen path).exec s = (some f,withHandles s h) ∧
      NewFile s.vars.handles h f p x (s.device x) 0 := by
  obtain ⟨i,found,listed,sector⟩ := listed_of_sectorOf named
  have opening := filesysOpen_new layout owns rfl closed.unset closed.absent names
  rw [found] at opening
  change (entryAt (rootArray s) i).inodeSector ≠ _ → s.vars.handles.Unopened (entryAt (rootArray s) i).inodeSector →
    ∃ f p h, _ ∧ NewFile s.vars.handles h f p (entryAt (rootArray s) i).inodeSector
      (s.device (entryAt (rootArray s) i).inodeSector) 0 at opening
  rw [sector] at opening
  exact opening apart unopened

/-- `copy_in` after the bytes were read. -/
theorem storeBuffer_spec (standing : Standing reserved dirty owner s) (stale : List Byte) {fname : CString}
    (names : NamesEntry fname) (source : List Byte) (last : Byte) :
    match leakAt s (lastName fname) (i32 source.length) with
    | some leaked => ∃ t, (storeBuffer stale fname source last).exec s = (some 9,t) ∧
        ∃ done, Refused reserved dirty owner s t done leaked
    | none => ∃ full t x, (storeBuffer stale fname source last).exec s = (if full = true then none else some 11,t) ∧
        CopiedIn reserved owner s t (lastName fname) source x full := by
  obtain ⟨low,high⟩ := i32_bounds source.length
  obtain ⟨t,same,outcome⟩ := filesysCreate_spec standing.layout standing.ready standing.origin standing.owns
    standing.closed stale fname low high
  change match leakAt s (lastName fname) (i32 source.length) with
    | some _ => _
    | none => _ at outcome
  cases leak : leakAt s (lastName fname) (i32 source.length) with
  | some leaked =>
    rw [leak] at outcome
    exact ⟨t,exec_storeBuffer_refused outcome.1,outcome.2⟩
  | none =>
    rw [leak] at outcome
    obtain ⟨created,x,made⟩ := outcome
    have good := createLeak_good _ leak
    have limit := made.layout.limit x (Or.inr rfl)
    rw [made.length] at limit
    obtain ⟨n,size⟩ := Int.eq_ofNat_of_zero_le good.1
    rw [size] at limit
    have more : i32 (source.length + 1) = (n + 1 : Nat) := by
      unfold i32 at size ⊢
      omega
    have apart := standing.apart made.clear
    have named := made.named standing.root good.2
    obtain ⟨f,p,h,opened,new⟩ := open_named made.layout (Or.inl standing.owns) (standing.closed.same same) names
      named apart (same.unopened _ (standing.unopened made.clear))
    obtain ⟨done,v,d,next,writing,new',stored⟩ := new.write made.layout made.ready standing.origin (Or.inr rfl)
      (standing.closed.live.same same) (fun g pointer => by
        obtain ⟨c,cell⟩ := standing.held g (same.freeMapFile.symm.trans pointer)
        exact ⟨c,(congrFun same.files g).trans cell⟩) (source ++ [last]) (n + 1) (Nat.succ_pos n) (by omega)
    generalize count : (if done = true ∧ n + 1 ≤ 8517120 then ((n + 1 : Nat) : Int) else 0) = written at writing
    rw [← more] at writing
    obtain ⟨h',panics,closed,finish⟩ := new'.finish written (source.length + 1)
    have stored := stored h' closed
    refine ⟨decide (written = source.length + 1),withHandles ⟨{v.vars with panics := panics},v.device⟩ h',x,(exec_storeBuffer created opened writing).trans (finish.trans ?_),
      same.trans closed,?_,?_,made.clear,?_,?_,fun small room => ?_⟩
    · simp only [decide_eq_true_eq]
    · exact stored.layout.congr rfl rfl
    · have array := stored.rootArray_eq (Or.inl standing.owns) apart
      exact (congrArg (fun a => (findName a (lastName fname)).map fun i => (entryAt a i).inodeSector) array).trans
        named
    · have counts := stored.counts (by omega)
      have count := made.count
      change v.vars.freeMap.clearCount < _
      cases done with
      | true =>
        have := counts.count rfl
        change v.vars.freeMap.clearCount + _ = _ at this
        omega
      | false =>
        have := (counts.short rfl).1
        change v.vars.freeMap.clearCount = _ at this
        omega
    · intro full
      have full := of_decide_eq_true full
      rw [← count] at full
      split at full
      · rename_i fits
        have length : source.length = n := by omega
        have buffer : (source ++ [last]).set n 0 = source ++ [0] := by
          rw [← length,List.set_append_right _ _ (Nat.le_refl _),Nat.sub_self]
          rfl
        have bytes := stored.written fits.1 (by omega)
        rw [made.zeros,Nat.add_sub_cancel,buffer] at bytes
        refine Eq.trans bytes ?_
        have whole : n + 1 = (source ++ [(0 : Byte)]).length := by
          rw [List.length_append,length]
          rfl
        rw [whole]
        refine arrayWrite_whole _ _ ?_
        rw [List.length_replicate]
        omega
      · omega
    · have length : (source.length : Int) = n := by
        rw [← size,i32_of_bounds _ (by omega) (by omega)]
      have wanted := need_le (t.device x) t.device (n + 1)
      have count := made.count
      rw [size] at count
      rw [length] at room
      change 1 + blocksFor n + _ + blocksFor (n + 1 : Nat) ≤ _ at room
      cases done with
      | true => exact decide_eq_true (by rw [← count,if_pos ⟨rfl,by omega⟩]; omega)
      | false =>
        have short := ((stored.counts (by omega)).short rfl).2
        rw [Nat.zero_add] at short
        omega

theorem exec_fileLength (s : Volume) (f : Nat) :
    (fileLength f).exec s = ((s.vars.handles.inode (s.vars.handles.file f).inode).data.length,s) := rfl

/-- `copy_out` of a file that is not open. -/
theorem copyOut_spec (layout : Layout reserved owner s.device s) (owns : owner rootDirSector) (inside : owner x)
    (closed : RootClosed s.vars.handles) (names : NamesEntry path) (named : sectorOf s (lastName path) = some x)
    (apart : x ≠ rootDirSector) (unopened : s.vars.handles.Unopened x) :
    ∃ t, (copyOut path true true).exec s = ((0,some (keptBytes (contents (s.device x) s.device))),t) := by
  obtain ⟨f,p,h,opening,new⟩ := open_named layout owns closed names named apart unopened
  have file : (withHandles s h).vars.handles.file f = ⟨p,0,false⟩ := ObjectHeap.deref_of_cell _ _ _ new.cell
  have inode : (withHandles s h).vars.handles.inode p = readInode x (s.device x) :=
    ObjectHeap.deref_of_cell _ _ _ new.inodeCell
  have natural := layout.natural x inside
  have length : (fileLength f).exec (withHandles s h) = ((s.device x).length,withHandles s h) := by
    rw [exec_fileLength,file,inode]
    rfl
  have held : ((withHandles s h).vars.handles.inode p).data = s.device x := by
    rw [inode]
    rfl
  have reading := (exec_fileRead (s := withHandles s h) (layout.congr rfl rfl) inside new.cell held (Int.le_refl 0) (by omega)
    (s.device x).length).1
  have whole : arrayRead (contents (s.device x) s.device) (Int.toNat 0) (s.device x).length.toNat =
      contents (s.device x) s.device := by
    unfold arrayRead
    rw [Int.toNat_zero,List.drop_zero,← length_contents (s.device x) s.device,List.take_length]
  have all : ((contents (s.device x) s.device).length : Int) = (s.device x).length := by
    rw [length_contents,Int.toNat_of_nonneg natural]
  rw [withHandles_device,whole] at reading
  obtain ⟨h',close,-⟩ := (new.setPos (0 + (contents (s.device x) s.device).length)).close
    (s := withHandles s (h.setPos f (0 + (contents (s.device x) s.device).length))) rfl
  refine ⟨withHandles s h',?_⟩
  unfold copyOut
  rw [Task.exec_bind,opening]
  simp only
  rw [Task.exec_bind,length]
  simp only
  rw [if_neg (by omega),if_pos trivial,Task.exec_bind,reading]
  simp only
  rw [if_neg (not_not_intro all),Task.exec_bind]
  rw [if_pos trivial]
  exact congrArg (fun r => (((0 : Int),some (keptBytes (contents (s.device x) s.device))),r.2)) close

end

section
variable {reserved dirty owner : Nat → Prop} {fname : CString}

theorem keptBytes_terminated (source : List Byte) : keptBytes (source ++ [0]) = keptBytes source := by
  unfold keptBytes
  rw [List.filter_append]
  exact List.append_nil _

theorem keptBytes_eq_self (source : List Byte) : keptBytes source = source ↔ (0 : Byte) ∉ source := by
  unfold keptBytes
  rw [List.filter_eq_self]
  constructor
  · intro all zero
    exact absurd (all 0 zero) (by decide)
  · rintro none byte member
    exact decide_eq_true fun zero => none (zero ▸ member)

/-- What `copy_out` delivers after `copy_in` has stored a file. -/
theorem copyOut_copyIn (s : FileSys) (standing : Standing reserved dirty owner (volume s)) (stale : List Byte)
    (names : NamesEntry fname) (source : List Byte) (last : Byte) (memory : Bool)
    (stored : ((copyIn stale fname (some source) last memory).exec s).1 = none) :
    ((copyOut fname true true).exec ((copyIn stale fname (some source) last memory).exec s).2).1 =
      (0,some (keptBytes source)) := by
  cases memory with
  | false => exact absurd stored.symm (Option.some_ne_none _).symm
  | true =>
    have outcome := storeBuffer_spec standing stale names source last
    change ((storeBuffer stale fname source last).exec s).1 = none at stored
    change ((copyOut fname true true).exec ((storeBuffer stale fname source last).exec s).2).1 = _
    rw [exec_volume] at outcome
    cases leak : leakAt (volume s) (lastName fname) (i32 source.length) with
    | some leaked =>
      rw [leak] at outcome
      obtain ⟨t,run,-⟩ := outcome
      exact absurd ((Prod.mk.inj run).1.symm.trans stored) (Option.some_ne_none _)
    | none =>
      rw [leak] at outcome
      obtain ⟨full,t,x,run,copied⟩ := outcome
      obtain ⟨code,state⟩ := Prod.mk.inj run
      cases full with
      | false => exact absurd (code.symm.trans stored) (Option.some_ne_none _)
      | true =>
        rw [← state] at copied
        obtain ⟨u,back⟩ := copyOut_spec copied.layout (Or.inl standing.owns) (Or.inr rfl)
          (standing.closed.same copied.same) names copied.named (standing.apart copied.clear)
          (copied.same.unopened _ (standing.unopened copied.clear))
        rw [copied.bytes rfl,keptBytes_terminated,exec_volume] at back
        exact (Prod.mk.inj back).1

/-- After `copy_in` has stored a file, `copy_out` delivers the same bytes exactly when
none of them is null. -/
theorem copy_back (s : FileSys) (standing : Standing reserved dirty owner (volume s)) (stale : List Byte)
    (names : NamesEntry fname) (source : List Byte) (last : Byte) (memory : Bool)
    (stored : ((copyIn stale fname (some source) last memory).exec s).1 = none) :
    ((copyOut fname true true).exec ((copyIn stale fname (some source) last memory).exec s).2).1 = (0,some source) ↔
      (0 : Byte) ∉ source := by
  rw [copyOut_copyIn s standing stale names source last memory stored,Prod.mk.injEq,Option.some.injEq,
    keptBytes_eq_self]
  exact and_iff_right rfl

/-- A copy that fits. -/
theorem copyIn_stored (s : FileSys) (standing : Standing reserved dirty owner (volume s)) (stale : List Byte)
    (names : NamesEntry fname) (source : List Byte) (last : Byte) (small : (source.length : Int) + 1 ≤ 8517120)
    (accepted : leakAt (volume s) (lastName fname) source.length = none)
    (room : 1 + blocksFor source.length + rootGrowth (volume s).device + blocksFor (source.length + 1) ≤
      (volume s).vars.freeMap.clearCount) :
    ((copyIn stale fname (some source) last true).exec s).1 = none := by
  have outcome := storeBuffer_spec standing stale names source last
  change ((storeBuffer stale fname source last).exec s).1 = none
  rw [i32_of_bounds _ (by omega) (by omega),accepted,exec_volume] at outcome
  obtain ⟨full,t,x,run,copied⟩ := outcome
  rw [(Prod.mk.inj run).1,if_pos (copied.enough small room)]

end

theorem namesEntry_nameA : NamesEntry nameA := ⟨by decide,by decide,by decide,by decide⟩

/-- Three bytes can be copied to the new device. -/
theorem blankStore_stores (source : List Byte) (three : source.length = 3) :
    ((copyIn [] nameA (some source) 0 true).exec (formatted blankStore)).1 = none := by
  obtain ⟨reserved,dirty,sane⟩ := formatted_sane blankStore blankStore_formattable
  obtain ⟨_,_,made⟩ := formatted_spec blankStore blankStore_formattable
  have room := blankStore_room
  obtain ⟨clear,growth⟩ := formatted_blankStore_clear
  have less : blocksFor 3 = 1 ∧ blocksFor (3 + 1) = 1 ∧ 1 ≤ blocksFor 5000 := by decide
  have last : lastName nameA = nameA := by decide
  refine copyIn_stored _ sane.mounted.standing [] namesEntry_nameA source 0 ?_ ?_ ?_
  · rw [three]
    decide
  · rw [three,last]
    exact made.leak nameA (by decide) (by decide) 3 (by decide) (by decide) (by omega)
  · rw [three,growth]
    change 1 + blocksFor 3 + 0 + blocksFor (3 + 1) ≤ _
    omega

/-- The null byte in the middle does not come back. -/
theorem null_byte_lost : ((copyIn [] nameA (some [65,0,66]) 0 true).exec (formatted blankStore)).1 = none ∧
    ((copyOut nameA true true).exec ((copyIn [] nameA (some [65,0,66]) 0 true).exec (formatted blankStore)).2).1 ≠
      (0,some [65,0,66]) := by
  obtain ⟨reserved,dirty,sane⟩ := formatted_sane blankStore blankStore_formattable
  have stored := blankStore_stores [65,0,66] rfl
  refine ⟨stored,fun same => ?_⟩
  rw [copyOut_copyIn _ sane.mounted.standing [] namesEntry_nameA [65,0,66] 0 true stored] at same
  exact absurd same (by decide)

theorem blankStore_copy_back :
    ((copyOut nameA true true).exec ((copyIn [] nameA (some [65,66,67]) 0 true).exec (formatted blankStore)).2).1 =
      (0,some [65,66,67]) := by
  obtain ⟨reserved,dirty,sane⟩ := formatted_sane blankStore blankStore_formattable
  exact (copy_back _ sane.mounted.standing [] namesEntry_nameA [65,66,67] 0 true
    (blankStore_stores [65,66,67] rfl)).mpr (by decide)

theorem namesEntry_longName : NamesEntry longName := ⟨by decide,by decide,by decide,by decide⟩

/-- A file of 5000 bytes with a name that is too long. -/
theorem longName_copied (s : FileSys) {reserved dirty : Nat → Prop} (mounted : Mounted reserved dirty (volume s))
    (room : 2 + blocksFor 5000 ≤ (volume s).vars.freeMap.clearCount) (source : List Byte) (length : source.length = 5000) :
    ((copyIn [] longName (some source) 0 true).exec s).1 = some 9 ∧
      ¬Untouched (Owns (rootArray (volume s))) (volume s)
        (volume ((copyIn [] longName (some source) 0 true).exec s).2) := by
  have outcome := storeBuffer_spec mounted.standing [] namesEntry_longName source 0
  have last : lastName longName = longName := by decide
  change ((storeBuffer [] longName source 0).exec s).1 = _ ∧
    ¬Untouched _ _ (volume ((storeBuffer [] longName source 0).exec s).2)
  rw [length,last,i32_of_bounds _ (by decide) (by decide)] at outcome
  change match leakAt (volume s) longName 5000 with
    | some _ => _
    | none => _ at outcome
  rw [longName_leak room,exec_volume] at outcome
  obtain ⟨t,run,done,refused⟩ := outcome
  obtain ⟨code,state⟩ := Prod.mk.inj run
  rw [state,refused.untouched_iff mounted.ready owns_root]
  exact ⟨code,Nat.ne_of_gt (blocksFor_pos 5000 (by decide) (by decide))⟩

end MyShell.FS
