import MyShell.FS.OpenEntries

/-! The functions of fsutil.c as the shell calls them, on files that stay open between the calls. To their
user there is a desk of files: the bytes of each name, and the positions of those that are open. -/
namespace MyShell.FS
open BlockProgram PointerForest Bitmap Simulation

/-- The length of the name is checked before anything else, and the size goes from `unsigned` to `offset_t`. -/
def fsutilCreate (stale : List Byte) (fname : CString) (isize : Nat) : FsM Bool :=
  if strlen fname = 0 ∨ 255 ≤ strlen fname then pure false else filesysCreate stale fname (i32 isize) false

def fsutilClose (fileName : CString) : FsM Unit := do
  let _ ← removeFromFileTable fileName
  pure ()

/-- The names that are printed. -/
def fsutilLs : FsM (List CString) := overRoot dirReaddir fun name => pure (CString.ofBuffer name)

structure Desk where
  files : Files
  opened : CString → Option Nat

namespace Desk

def empty : Desk := ⟨fun _ => none,fun _ => none⟩

/-- Where the file is, or is opened. -/
def position (desk : Desk) (path : CString) : Nat := (desk.opened path).getD 0

def move (desk : Desk) (path : CString) (pos : Nat) : Desk := {desk with opened := Function.update desk.opened path (some pos)}

def store (desk : Desk) (path : CString) (a : List Byte) : Desk := {desk with files := Function.update desk.files path (some a)}

def close (desk : Desk) (path : CString) : Desk := {desk with opened := Function.update desk.opened path none}

def remove (desk : Desk) (path : CString) : Desk := {desk.close path with files := Function.update desk.files path none}

end Desk

def deskOf (s : Volume) : Desk := ⟨filesOf s,openedAt s.vars.handles⟩

inductive ShellCall where
  | create (stale : List Byte) (fname : CString) (isize : Nat)
  | rm (fileName : CString)
  | write (fileName : CString) (buffer : List Byte) (n : Nat)
  | read (fileName : CString) (n : Int)
  | size (fileName : CString)
  | seek (fileName : CString) (offset : Int)
  | cat (fileName : CString)
  | close (fileName : CString)
  | ls

inductive Reply where
  | flag (done : Bool)
  | count (result : Int)
  | bytes (read : Option (List Byte))
  | dumps (result : Int × List (Int × List Byte))
  | names (listing : List CString)
  | done

def ShellCall.task : ShellCall → FsM Reply
  | .create stale fname isize => do return .flag (← fsutilCreate stale fname isize)
  | .rm fileName => do return .flag (← fsutilRm fileName)
  | .write fileName buffer n => do return .count (← fsutilWrite fileName buffer n)
  | .read fileName n => do return .bytes (← fsutilRead fileName n)
  | .size fileName => do return .count (← fsutilSize fileName)
  | .seek fileName offset => do return .count (← fsutilSeek fileName offset)
  | .cat fileName => do return .dumps (← fsutilCat fileName)
  | .close fileName => do
    fsutilClose fileName
    pure .done
  | .ls => do return .names (← fsutilLs)

/-- There are sectors for what a write to the file adds to it. -/
def Room (s : Volume) (fileName : CString) (n : Nat) : Prop :=
  ∀ x, sectorOf s fileName = some x → (deskOf s).position fileName + n ≤ 8517120 ∧
    need (s.device x) s.device ((deskOf s).position fileName + n) ≤ s.vars.freeMap.clearCount

/-- Names of entries, writes of two bytes or more that do not run out of space, and seeks to an offset. -/
def ShellCall.Possible (s : Volume) : ShellCall → Prop
  | .create _ _ _ => True
  | .rm fileName => PlainName fileName
  | .write fileName _ n => PlainName fileName ∧ 2 ≤ n ∧ Room s fileName n
  | .read fileName _ => PlainName fileName
  | .size fileName => PlainName fileName
  | .seek fileName offset => PlainName fileName ∧ 0 ≤ offset ∧ offset < 2147483648
  | .cat fileName => PlainName fileName
  | .close _ => True
  | .ls => True

/-- The calls that open a file, with what they return if there is none. -/
def ShellCall.opens : ShellCall → Option (CString × Reply)
  | .write fileName _ _ => some (fileName,.count (-1))
  | .read fileName _ => some (fileName,.bytes none)
  | .size fileName => some (fileName,.count (-1))
  | .seek fileName _ => some (fileName,.count (-1))
  | .cat fileName => some (fileName,.dumps (-1,[]))
  | _ => none

/-- What a desk may reply, and the desk afterwards. A write ends its last byte in a null byte, and leaves the file
two bytes before the end of what it wrote. -/
inductive ShellCall.Gives (desk : Desk) : ShellCall → Reply → Desk → Prop
  | created (stale : List Byte) (fname : CString) (isize : Nat) (new : desk.files (lastName fname) = none)
      (proper : ProperName (lastName fname)) (natural : 0 ≤ i32 isize) (small : i32 isize ≤ 8517120) :
      Gives desk (.create stale fname isize) (.flag true) (desk.store (lastName fname) (List.replicate (i32 isize).toNat 0))
  | refused (stale : List Byte) (fname : CString) (isize : Nat) : Gives desk (.create stale fname isize) (.flag false) desk
  | removed (fileName : CString) :
      Gives desk (.rm fileName) (.flag (desk.files fileName).isSome) (desk.remove fileName)
  | written (fileName : CString) (buffer : List Byte) (n : Nat) (a : List Byte) (known : desk.files fileName = some a) :
      Gives desk (.write fileName buffer n) (.count n)
        ((desk.store fileName (arrayWrite a (buffer.set (n-1) 0) (desk.position fileName) n)).move fileName
          (desk.position fileName + n - 2))
  | read (fileName : CString) (n : Int) (a : List Byte) (known : desk.files fileName = some a) :
      Gives desk (.read fileName n) (.bytes (some (arrayRead a (desk.position fileName) n.toNat)))
        (desk.move fileName (desk.position fileName + (arrayRead a (desk.position fileName) n.toNat).length))
  | measured (fileName : CString) (a : List Byte) (known : desk.files fileName = some a) :
      Gives desk (.size fileName) (.count a.length) (desk.move fileName (desk.position fileName))
  | sought (fileName : CString) (offset : Int) (known : (desk.files fileName).isSome = true) :
      Gives desk (.seek fileName offset) (.count 0) (desk.move fileName offset.toNat)
  | dumped (fileName : CString) (a : List Byte) (known : desk.files fileName = some a) (dumps : List (Int × List Byte))
      (whole : dumps.flatMap Prod.snd = a) : Gives desk (.cat fileName) (.dumps (0,dumps)) desk
  | missing (call : ShellCall) (fileName : CString) (reply : Reply) (opens : call.opens = some (fileName,reply))
      (unknown : desk.files fileName = none) : Gives desk call reply desk
  | closed (fileName : CString) : Gives desk (.close fileName) .done (desk.close fileName)
  | listed (listing : List CString) (nodup : listing.Nodup)
      (all : ∀ name, name ∈ listing ↔ (desk.files name).isSome = true) : Gives desk .ls (.names listing) desk

section
variable {reserved dirty : Nat → Prop} {s t : Volume} {h : Handles} {path : CString} {call : ShellCall} {reply : Reply}

/-- What a call leaves: a file system whose desk is that of the specification. -/
structure Replied (reserved dirty : Nat → Prop) (s t : Volume) (call : ShellCall) (reply : Reply) : Prop where
  tidy : Tidy reserved dirty t
  gives : call.Gives (deskOf s) reply (deskOf t)

theorem deskOf_same (same : s.vars.handles.Same h) : deskOf (withHandles s h) = deskOf s := by
  unfold deskOf
  rw [withHandles_vars,openedAt_same same]
  rfl

/-- The only file in question is not there. -/
theorem Replied.missing (tidy : Tidy reserved dirty s) (same : s.vars.handles.Same h) (opens : call.opens = some (path,reply))
    (unknown : filesOf s path = none) : Replied reserved dirty s (withHandles s h) call reply := by
  refine ⟨tidy.same same,?_⟩
  rw [deskOf_same same]
  exact .missing call path reply opens unknown

theorem Tidy.create (tidy : Tidy reserved dirty s) (stale : List Byte) (fname : CString) (isize : Nat) :
    ∃ done t, (fsutilCreate stale fname isize).exec s = (done,t) ∧
      Replied reserved dirty s t (.create stale fname isize) (.flag done) := by
  unfold fsutilCreate
  rw [Task.exec_ite,Task.exec_pure]
  split
  · exact ⟨false,s,rfl,tidy,.refused stale fname isize⟩
  · obtain ⟨low,high⟩ := i32_bounds isize
    obtain ⟨done,t,run,same,after,files⟩ := tidy.filesysCreate stale fname (i32 isize) low high
    have opened := openedAt_same same
    refine ⟨done,t,run,after,?_⟩
    unfold deskOf
    rw [opened]
    cases done with
    | true =>
      rw [if_pos rfl] at files
      obtain ⟨new,proper,natural,small,made⟩ := files
      rw [made]
      exact .created stale fname isize new proper natural small
    | false =>
      rw [if_neg Bool.false_ne_true] at files
      rw [files]
      exact .refused stale fname isize

theorem Tidy.rm (tidy : Tidy reserved dirty s) (plain : PlainName path) :
    ∃ done t, (fsutilRm path).exec s = (done,t) ∧ Replied reserved dirty s t (.rm path) (.flag done) := by
  obtain ⟨removed,h,closing,closed,opened,missing⟩ := tidy.close path
  obtain ⟨t,run,same,after,files⟩ := closed.filesysRemove plain missing
  refine ⟨(filesOf s path).isSome,t,?_,after,?_⟩
  · unfold fsutilRm
    rw [Task.exec_bind,closing]
    exact run
  · have desk : deskOf t = (deskOf s).remove path := by
      unfold deskOf
      rw [openedAt_same same,files,withHandles_vars,opened]
      rfl
    rw [desk]
    exact .removed path

section
variable {f p i : Nat} {pos : Int} {a : List Byte}

theorem Tabled.position (tabled : Tabled reserved dirty s h path f p i pos a) : (deskOf s).position path = pos.toNat :=
  tabled.start.symm

theorem Tabled.sectorOf_eq (tabled : Tabled reserved dirty s h path f p i pos a) : sectorOf s path = some (entrySector s i) := by
  have found : findName (rootArray s) (lastName path) = some i := tabled.file.found
  rw [tabled.file.spelled.last] at found
  unfold sectorOf
  rw [found,Option.map_some]
  rfl

/-- The file of the path moves, and its bytes may change. -/
theorem Tabled.opened {next : Nat} (tabled : Tabled reserved dirty s h path f p i pos a)
    (after : openedAt t.vars.handles = Function.update (openedAt h) path (some next)) :
    openedAt t.vars.handles = Function.update (openedAt s.vars.handles) path (some next) := by
  rw [after,tabled.others,Function.update_idem]

/-- The file of the path moves to `next`. -/
theorem Tabled.moved (tabled : Tabled reserved dirty s h path f p i pos a) (next : Int) (low : 0 ≤ next)
    (high : next < 2147483648) :
    Tidy reserved dirty (withHandles s (h.setPos f next)) ∧
      deskOf (withHandles s (h.setPos f next)) = (deskOf s).move path next.toNat := by
  obtain ⟨after,opened⟩ := tabled.tidy.move tabled.member tabled.file next low high
  rw [withHandles_vars] at after opened
  rw [withHandles_withHandles] at after
  refine ⟨after,?_⟩
  unfold deskOf Desk.move
  rw [withHandles_vars,opened,tabled.others,Function.update_idem]
  rfl

end

theorem Tidy.write (tidy : Tidy reserved dirty s) (plain : PlainName path) (buffer : List Byte) (n : Nat) (two : 2 ≤ n)
    (room : Room s path n) :
    ∃ count t, (fsutilWrite path buffer n).exec s = (count,t) ∧ Replied reserved dirty s t (.write path buffer n) (.count count) := by
  unfold fsutilWrite
  rw [Task.exec_bind]
  cases there : filesOf s path with
  | none =>
    obtain ⟨h,run,same⟩ := tidy.tableFile_none plain there
    rw [run]
    exact ⟨_,_,rfl,.missing tidy same rfl there⟩
  | some a =>
    obtain ⟨f,p,i,pos,h,run,tabled⟩ := tidy.tableFile plain there
    obtain ⟨small,enough⟩ := room _ tabled.sectorOf_eq
    rw [tabled.position] at small enough
    obtain ⟨t,wrote,after,files,opened⟩ := tabled.tidy.fileWrite tabled.member tabled.file buffer n two small enough
    rw [run]
    dsimp only
    rw [i32_of_bounds _ (by omega) (by omega),wrote]
    refine ⟨n,t,rfl,after,?_⟩
    have desk : deskOf t = ((deskOf s).store path (arrayWrite a (buffer.set (n-1) 0) ((deskOf s).position path) n)).move path
        ((deskOf s).position path + n - 2) := by
      unfold deskOf Desk.move Desk.store
      rw [files,tabled.opened opened,← tabled.bytes]
      have position := tabled.position
      unfold deskOf at position
      rw [position]
      rfl
    rw [desk]
    exact .written path buffer n a there

theorem Tidy.read (tidy : Tidy reserved dirty s) (plain : PlainName path) (n : Int) :
    ∃ bytes t, (fsutilRead path n).exec s = (bytes,t) ∧ Replied reserved dirty s t (.read path n) (.bytes bytes) := by
  unfold fsutilRead
  rw [Task.exec_bind]
  cases there : filesOf s path with
  | none =>
    obtain ⟨h,run,same⟩ := tidy.tableFile_none plain there
    rw [run]
    exact ⟨_,_,rfl,.missing tidy same rfl there⟩
  | some a =>
    obtain ⟨f,p,i,pos,h,run,tabled⟩ := tidy.tableFile plain there
    obtain ⟨reading,bound⟩ := tabled.tidy.serving.fileRead tabled.file n
    change _ = (arrayRead (contents (s.device (entrySector s i)) s.device) pos.toNat n.toNat,withHandles s (h.setPos f
      (pos + (arrayRead (contents (s.device (entrySector s i)) s.device) pos.toNat n.toNat).length))) at reading
    change pos + (arrayRead (contents (s.device (entrySector s i)) s.device) pos.toNat n.toNat).length < _ at bound
    rw [tabled.bytes] at reading bound
    have low := tabled.file.low
    obtain ⟨after,desk⟩ := tabled.moved (pos + (arrayRead a pos.toNat n.toNat).length) (by omega) bound
    rw [run]
    dsimp only
    rw [Task.exec_bind,reading,Task.exec_pure]
    refine ⟨_,_,rfl,after,?_⟩
    rw [desk,show (pos + ((arrayRead a pos.toNat n.toNat).length : Int)).toNat =
      pos.toNat + (arrayRead a pos.toNat n.toNat).length by omega,← tabled.position]
    exact .read path n a there

theorem Tidy.size (tidy : Tidy reserved dirty s) (plain : PlainName path) :
    ∃ count t, (fsutilSize path).exec s = (count,t) ∧ Replied reserved dirty s t (.size path) (.count count) := by
  unfold fsutilSize
  rw [Task.exec_bind]
  cases there : filesOf s path with
  | none =>
    obtain ⟨h,run,same⟩ := tidy.tableFile_none plain there
    rw [run]
    exact ⟨_,_,rfl,.missing tidy same rfl there⟩
  | some a =>
    obtain ⟨f,p,i,pos,h,run,tabled⟩ := tidy.tableFile plain there
    have file := tabled.file
    have inode : h.inode p = ⟨entrySector s i,1,false,0,s.device (entrySector s i)⟩ := ObjectHeap.deref_of_cell _ _ _ file.cell
    have told : (fileTell f).exec (withHandles s h) = (pos,withHandles s h) := by
      unfold fileTell
      simp only [Task.exec_bind,exec_getHandles,Task.exec_pure,file.file_eq]
    have length : (fileLength f).exec (withHandles s h) = ((a.length : Int),withHandles s h) := by
      have natural : 0 ≤ (s.device (entrySector s i)).length :=
        tabled.tidy.serving.layout.natural _ (tabled.tidy.serving.owns file.listed.1).1
      have handle : h.file f = ⟨p,pos,false⟩ := file.file_eq
      unfold fileLength inodeLength
      simp only [Task.exec_bind,exec_getHandles,Task.exec_pure,withHandles_vars,handle,inode]
      rw [← tabled.bytes,length_contents,Int.toNat_of_nonneg natural]
    obtain ⟨after,desk⟩ := tabled.moved pos file.low file.high
    rw [run]
    dsimp only
    rw [Task.exec_bind,told]
    dsimp only
    rw [Task.exec_bind,length]
    dsimp only
    rw [Task.exec_bind,exec_fileSeek _ f pos file.low,Task.exec_pure]
    refine ⟨_,_,rfl,after,?_⟩
    change ShellCall.Gives _ _ _ (deskOf (withHandles s (h.setPos f pos)))
    rw [desk,← tabled.position]
    exact .measured path a there

theorem Tidy.seek (tidy : Tidy reserved dirty s) (plain : PlainName path) (offset : Int) (low : 0 ≤ offset)
    (high : offset < 2147483648) :
    ∃ status t, (fsutilSeek path offset).exec s = (status,t) ∧
      Replied reserved dirty s t (.seek path offset) (.count status) := by
  unfold fsutilSeek
  rw [Task.exec_bind]
  cases there : filesOf s path with
  | none =>
    obtain ⟨h,run,same⟩ := tidy.tableFile_none plain there
    rw [run]
    exact ⟨_,_,rfl,.missing tidy same rfl there⟩
  | some a =>
    obtain ⟨f,p,i,pos,h,run,tabled⟩ := tidy.tableFile plain there
    obtain ⟨after,desk⟩ := tabled.moved offset low high
    rw [run]
    dsimp only
    rw [Task.exec_bind,exec_fileSeek _ f offset low,Task.exec_pure]
    refine ⟨_,_,rfl,after,?_⟩
    change ShellCall.Gives _ _ _ (deskOf (withHandles s (h.setPos f offset)))
    rw [desk]
    exact .sought path offset (Option.isSome_of_eq_some there)

/-- A file that was not open is closed again. -/
theorem Tidy.cat (tidy : Tidy reserved dirty s) (plain : PlainName path) :
    ∃ outcome t, (fsutilCat path).exec s = (outcome,t) ∧ Replied reserved dirty s t (.cat path) (.dumps outcome) := by
  unfold fsutilCat
  rw [Task.exec_bind,exec_getFileByFname]
  dsimp only
  rw [Task.exec_bind]
  cases there : filesOf s path with
  | none =>
    obtain ⟨h,run,same⟩ := tidy.tableFile_none plain there
    rw [run]
    exact ⟨_,_,rfl,.missing tidy same rfl there⟩
  | some a =>
    obtain ⟨f,p,i,pos,h,run,tabled⟩ := tidy.tableFile plain there
    obtain ⟨dumps,dumped,whole,-⟩ := tabled.tidy.serving.catFile spelling_plain tabled.member tabled.file
    rw [tabled.file.array_eq] at whole
    have bytes : dumps.flatMap Prod.snd = a := whole.trans tabled.bytes
    have start := tabled.start
    unfold openedAt at start
    rw [run]
    dsimp only
    rw [Task.exec_bind,dumped]
    dsimp only
    cases known : s.vars.handles.fileTable.find? fun entry => entry.1 == path with
    | some entry =>
      have opened : openedAt s.vars.handles path = some pos.toNat := by
        rw [known,Option.map_some,Option.getD_some] at start
        unfold openedAt
        rw [known,Option.map_some,start]
      refine ⟨(0,dumps),withHandles s h,rfl,tabled.tidy,?_⟩
      have desk : deskOf (withHandles s h) = deskOf s := by
        unfold deskOf
        rw [withHandles_vars,tabled.others,← opened,Function.update_eq_self]
        rfl
      rw [desk]
      exact .dumped path a there dumps bytes
    | none =>
      have opened : openedAt s.vars.handles path = none := by
        unfold openedAt
        rw [known,Option.map_none]
      obtain ⟨removed,h',closing,after,closed,-⟩ := tabled.tidy.close path
      simp only [Option.map_none,Option.isNone_none,if_true]
      rw [Task.exec_bind,closing]
      refine ⟨(0,dumps),withHandles s h',rfl,after,?_⟩
      have desk : deskOf (withHandles s h') = deskOf s := by
        unfold deskOf
        rw [withHandles_vars,closed,withHandles_vars,tabled.others,Function.update_idem,← opened,Function.update_eq_self]
        rfl
      rw [desk]
      exact .dumped path a there dumps bytes

theorem Tidy.closeFile (tidy : Tidy reserved dirty s) (path : CString) :
    ∃ t, (fsutilClose path).exec s = ((),t) ∧ Replied reserved dirty s t (.close path) .done := by
  obtain ⟨removed,h,closing,after,opened,-⟩ := tidy.close path
  refine ⟨withHandles s h,?_,after,?_⟩
  · unfold fsutilClose
    rw [Task.exec_bind,closing,Task.exec_pure]
  · have desk : deskOf (withHandles s h) = (deskOf s).close path := by
      unfold deskOf
      rw [withHandles_vars,opened]
      rfl
    rw [desk]
    exact .closed path

theorem Tidy.ls (tidy : Tidy reserved dirty s) :
    ∃ listing t, fsutilLs.exec s = (listing,t) ∧ Replied reserved dirty s t .ls (.names listing) := by
  obtain ⟨h,run,same⟩ : ∃ h, fsutilLs.exec s = ((usedFrom (rootArray s) 1).map (nameAt (rootArray s)),withHandles s h) ∧
      s.vars.handles.Same h := by
    refine tidy.overRoot (fun i => (entryAt (rootArray s) i).name) _ (fun t dir p j openCnt array handle listing => ?_)
      fun t i => rfl
    rw [exec_dirReaddir handle listing,array]
  refine ⟨_,_,run,tidy.same same,?_⟩
  rw [deskOf_same same]
  refine .listed _ (List.Nodup.map_on (fun i first j second equal => ?_) (nodup_usedFrom _ 1)) fun name => ?_
  · exact tidy.named.distinct i j (mem_usedFrom_one.mp first) (mem_usedFrom_one.mp second) equal
  · have known : ((deskOf s).files name).isSome = (findName (rootArray s) name).isSome := filesOf_isSome s name
    rw [known,Option.isSome_iff_exists,List.mem_map]
    exact exists_congr fun i => (and_congr_left fun _ => mem_usedFrom_one).trans tidy.named.findName_iff.symm

theorem Replied.of_task {α : Type} (task : FsM α) (reply : α → Reply) (same : call.task = task >>= fun x => pure (reply x))
    (replies : ∃ x t, task.exec s = (x,t) ∧ Replied reserved dirty s t call (reply x)) :
    Replied reserved dirty s (call.task.exec s).2 call (call.task.exec s).1 := by
  obtain ⟨x,t,run,replied⟩ := replies
  rw [same,Task.exec_bind,run,Task.exec_pure]
  exact replied

/-- The step lemma: each call replies as the desk does, and leaves its desk. -/
theorem Tidy.replies (tidy : Tidy reserved dirty s) (call : ShellCall) (possible : call.Possible s) :
    Replied reserved dirty s (call.task.exec s).2 call (call.task.exec s).1 := by
  cases call with
  | create stale fname isize => exact .of_task _ _ rfl (tidy.create stale fname isize)
  | rm path => exact .of_task _ _ rfl (tidy.rm possible)
  | write path buffer n => exact .of_task _ _ rfl (tidy.write possible.1 buffer n possible.2.1 possible.2.2)
  | read path n => exact .of_task _ _ rfl (tidy.read possible n)
  | size path => exact .of_task _ _ rfl (tidy.size possible)
  | seek path offset => exact .of_task _ _ rfl (tidy.seek possible.1 offset possible.2.1 possible.2.2)
  | cat path => exact .of_task _ _ rfl (tidy.cat possible)
  | close path =>
    obtain ⟨t,run,replied⟩ := tidy.closeFile path
    exact .of_task (fsutilClose path) (fun _ => .done) rfl ⟨(),t,run,replied⟩
  | ls => exact .of_task _ _ rfl tidy.ls

end

/-- The calls of a session with their replies. -/
abbrev ShellRun (s : FileSys) : List (ShellCall × Reply) → FileSys → Prop :=
  Session (fun call s => call.task.exec s) (fun s call => call.Possible (volume s)) s

abbrev DeskRun (desk : Desk) : List (ShellCall × Reply) → Desk → Prop := Allows ShellCall.Gives desk

theorem shell_refines (reserved dirty : Nat → Prop) :
    Refines (fun (call : ShellCall) (s : FileSys) => call.task.exec s) (fun s call => call.Possible (volume s))
      ShellCall.Gives (fun s => Tidy reserved dirty (volume s)) fun s => deskOf (volume s) where
  keeps s call tidy possible := by
    have replied := tidy.replies call possible
    rw [exec_volume] at replied
    exact replied.tidy
  gives s call tidy possible := by
    have replied := tidy.replies call possible
    rw [exec_volume] at replied
    exact replied.gives

/-- Only files that are there are open, and none is larger than the largest file. -/
structure Desk.Sound (desk : Desk) : Prop where
  opened : ∀ path, (desk.opened path).isSome = true → (desk.files path).isSome = true
  limit : ∀ path a, desk.files path = some a → a.length ≤ 8517120

section
variable {reserved dirty : Nat → Prop} {s : Volume} {path : CString} {a : List Byte}

theorem Tidy.sound (tidy : Tidy reserved dirty s) : (deskOf s).Sound := by
  refine ⟨fun path opened => ?_,fun path a there => ?_⟩
  · change (openedAt s.vars.handles path).isSome = true at opened
    unfold openedAt at opened
    rw [Option.isSome_map,Option.isSome_iff_exists] at opened
    obtain ⟨entry,found⟩ := opened
    have key := List.find?_some found
    obtain ⟨p,i,pos,file⟩ := tidy.serving.files entry (List.mem_of_find?_eq_some found)
    rw [beq_iff_eq.mp key] at file
    exact Option.isSome_of_eq_some file.filesOf_eq
  · obtain ⟨x,found,rfl⟩ := Option.map_eq_some_iff.mp (show filesOf s path = some a from there)
    obtain ⟨i,-,listed,rfl⟩ := listed_of_sectorOf found
    have limit := tidy.serving.layout.limit _ (owns_listed listed)
    rw [length_contents]
    omega

theorem Mounted.desk_empty (mounted : Mounted reserved dirty s) (files : filesOf s = fun _ => none) :
    deskOf s = Desk.empty := by
  have opened : openedAt s.vars.handles = fun _ => none := by
    funext path
    unfold openedAt
    rw [mounted.idle.table]
    rfl
  unfold deskOf Desk.empty
  rw [files,opened]

/-- A write inside a file needs no sectors. -/
theorem Tidy.room (tidy : Tidy reserved dirty s) (there : filesOf s path = some a) (n : Nat)
    (inside : (deskOf s).position path + n ≤ a.length) : Room s path n := by
  intro x found
  unfold filesOf at there
  rw [found,Option.map_some] at there
  obtain rfl := Option.some.inj there
  obtain ⟨i,-,listed,rfl⟩ := listed_of_sectorOf found
  have limit := tidy.serving.layout.limit _ (owns_listed listed)
  have natural := tidy.serving.layout.natural _ (owns_listed listed)
  rw [length_contents] at inside
  refine ⟨by omega,?_⟩
  unfold need
  rw [if_pos (by omega)]
  exact Nat.zero_le _

end

/-- A session of the shell on a new file system is a session at an empty desk, with the same replies: a file is
the bytes that were put there last, whatever is open in between, and a call goes on where the last one left it. -/
theorem shell_at_desk (c : CacheStore) (fits : Formattable c.cache.fsDevice.size) {history : List (ShellCall × Reply)}
    {t : FileSys} (run : ShellRun (formatted c) history t) :
    DeskRun Desk.empty history (deskOf (volume t)) ∧ (deskOf (volume t)).Sound := by
  obtain ⟨reserved,dirty,kept,files⟩ := formatted_storeKept c fits
  have mounted := kept.sane.mounted
  obtain ⟨tidy,desk⟩ := (shell_refines reserved dirty).session (mounted.tidy kept.named) run
  rw [mounted.desk_empty files] at desk
  exact ⟨desk,tidy.sound⟩

theorem plain_nameA : PlainName nameA := ⟨nameA_names,nameA_plain⟩

/-- The first 5000 bytes of a new file can be written. -/
theorem Sane.writable {reserved dirty : Nat → Prop} {s : FileSys} (sane : Sane reserved dirty s)
    (named : NamedRoot (rootArray (volume s))) (leak : leakAt (volume s) nameA 5000 = none) (n : Nat) (inside : n ≤ 5000) :
    Room (volume ((ShellCall.create [] nameA 5000).task.exec s).2) nameA n := by
  have tidy := sane.mounted.tidy named
  have state : ((ShellCall.create [] nameA 5000).task.exec s).2 = ((filesysCreate [] nameA 5000 false).exec s).2 := by
    have size : i32 (5000 : Nat) = 5000 := by decide
    unfold ShellCall.task fsutilCreate
    rw [Task.exec_bind,if_neg (by decide),size,Task.exec_pure]
  obtain ⟨result,-⟩ := sane.created [] nameA nameA_plain 5000 (by decide) (by decide)
  obtain ⟨done,t,run,same,after,files⟩ := tidy.filesysCreate [] nameA 5000 (by decide) (by decide)
  rw [exec_volume] at run
  obtain ⟨rfl,rfl⟩ := Prod.mk.inj run
  rw [result,leak,Option.isNone_none,if_pos rfl,lastName_slashFree nameA_plain] at files
  obtain ⟨-,-,-,-,made⟩ := files
  have there : filesOf (volume ((filesysCreate [] nameA 5000 false).exec s).2) nameA = some (List.replicate 5000 0) := by
    rw [made,Function.update_self]
    rfl
  have position : (deskOf (volume ((filesysCreate [] nameA 5000 false).exec s).2)).position nameA = 0 := by
    unfold Desk.position deskOf
    dsimp only
    rw [openedAt_same same]
    unfold openedAt
    rw [sane.mounted.idle.table]
    rfl
  rw [state]
  refine after.room there n ?_
  rw [position,List.length_replicate]
  omega

theorem shell_at_desk_blank : ∃ history t, history.length = 9 ∧ DeskRun Desk.empty history (deskOf (volume t)) := by
  obtain ⟨reserved,dirty,kept,-⟩ := formatted_storeKept blankStore blankStore_formattable
  have room := kept.sane.writable kept.named formatted_blankStore_leak 3 (by decide)
  exact ⟨_,_,rfl,(shell_at_desk blankStore blankStore_formattable
    (.step (ShellCall.rm nameA) (.step (ShellCall.close nameA) (.step ShellCall.ls (.step (ShellCall.cat nameA)
      (.step (ShellCall.size nameA) (.step (ShellCall.read nameA 4) (.step (ShellCall.seek nameA 0)
        (.step (ShellCall.write nameA [65,66,0] 3) (.step (ShellCall.create [] nameA 5000) .start trivial)
          ⟨plain_nameA,by decide,room⟩) ⟨plain_nameA,by decide⟩) plain_nameA) plain_nameA) plain_nameA) trivial) trivial)
      plain_nameA)).1⟩

end MyShell.FS
