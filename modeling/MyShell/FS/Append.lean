import MyShell.FS.Positions

/-! Commands `write` one after the other: each writes its words over the two null bytes that
the one before ended in. -/
namespace MyShell.FS
open BlockProgram PointerForest Bitmap

/-- The words with a blank between each two. -/
def joinWords (words : List CString) : List Byte := [32].intercalate (words.map CString.chars)

/-- Commands `write` on a file, in order, that each write as many bytes as they have. -/
inductive FullWrites (path : CString) : FileSys → List (List CString) → FileSys → Prop
  | done (s : FileSys) : FullWrites path s [] s
  | write {s t : FileSys} {words : List CString} {more : List (List CString)} (some : words ≠ [])
      (complete : ((writeWords path words).exec s).1 = writeSize words)
      (rest : FullWrites path ((writeWords path words).exec s).2 more t) : FullWrites path s (words :: more) t

/-- The command of a line leaves what the write in it leaves. -/
theorem exec_write_task (path : CString) (words : List CString) (line : writeSize words ≤ maxUserInput) (some : words ≠ [])
    (s : FileSys) : ((FileCommand.write path words line).task.exec s).2 = ((writeWords path words).exec s).2 := by
  unfold FileCommand.task
  dsimp only
  rw [if_neg (fun none => some (List.length_eq_zero_iff.mp none)),Task.exec_bind,Task.exec_ite]
  split <;> rfl

section
variable {words : List CString} {a buffer : List Byte} {ofs n : Nat}

theorem joinWords_blank (some : words ≠ []) :
    words.flatMap (fun word => word.chars ++ [32]) = joinWords words ++ [32] := by
  induction words with
  | nil => exact absurd rfl some
  | cons word rest ih =>
    cases rest with
    | nil => simp [joinWords]
    | cons next rest =>
      rw [List.flatMap_cons,ih (List.cons_ne_nil _ _)]
      simp [joinWords,List.intercalate]

/-- The words of a command end in two null bytes. -/
theorem writeBuffer_eq (some : words ≠ []) : writeBuffer words = joinWords words ++ [0,0] := by
  unfold writeBuffer
  rw [joinWords_blank some]
  dsimp only
  rw [List.length_append,List.length_singleton,Nat.add_sub_cancel,List.set_append_right _ _ (Nat.le_refl _),Nat.sub_self,
    List.append_assoc]
  rfl

theorem length_joinWords (some : words ≠ []) : (joinWords words).length + 2 = writeSize words := by
  have length (words : List CString) :
      (words.flatMap fun word => word.chars ++ [32]).length = (words.map strlen).sum + words.length := by
    induction words with
    | nil => rfl
    | cons word rest ih =>
      rw [List.flatMap_cons,List.length_append,ih,List.map_cons,List.sum_cons,List.length_append,List.length_singleton,
        List.length_cons]
      unfold strlen
      omega
  have total := congrArg List.length (joinWords_blank some)
  rw [length,List.length_append,List.length_singleton] at total
  unfold writeSize
  omega

/-- A write inside the array or at its end. -/
theorem arrayWrite_append (whole : buffer.length = n) (inside : ofs ≤ a.length) :
    arrayWrite a buffer ofs n = a.take ofs ++ buffer ++ a.drop (ofs + n) := by
  subst whole
  apply List.ext_getElem
  · rw [length_arrayWrite]
    simp only [List.length_append,List.length_take,List.length_drop]
    omega
  · intro i left right
    rw [length_arrayWrite] at left
    rw [getElem_arrayWrite]
    have front : (a.take ofs ++ buffer).length = ofs + buffer.length := by
      rw [List.length_append,List.length_take]
      omega
    by_cases after : i < ofs + buffer.length
    · rw [List.getElem_append_left (by omega)]
      by_cases before : i < ofs
      · rw [if_neg (by omega),List.getElem_append_left (by rw [List.length_take]; omega),List.getElem_take,
          List.getD_eq_getElem _ _ (by omega)]
      · rw [if_pos (by omega),List.getElem_append_right (by rw [List.length_take]; omega),
          List.getD_eq_getElem _ _ (by omega)]
        congr 1
        rw [List.length_take]
        omega
    · rw [if_neg (by omega),List.getElem_append_right (by omega),List.getElem_drop,List.getD_eq_getElem _ _ (by omega)]
      congr 1
      omega

/-- A text written over the padding of the one before. -/
theorem overwrite_padding (a first second padding : List Byte) (ofs : Nat) (inside : ofs ≤ a.length) :
    (a.take ofs ++ (first ++ padding) ++ a.drop (ofs + (first.length + padding.length))).take (ofs + first.length) ++
        (second ++ padding) ++
        (a.take ofs ++ (first ++ padding) ++ a.drop (ofs + (first.length + padding.length))).drop
          (ofs + first.length + (second.length + padding.length)) =
      a.take ofs ++ (first ++ second ++ padding) ++ a.drop (ofs + ((first ++ second).length + padding.length)) := by
  have front : (a.take ofs ++ first).length = ofs + first.length := by
    rw [List.length_append,List.length_take,Nat.min_eq_left inside]
  rw [← List.append_assoc (a.take ofs) first padding,List.append_assoc _ padding]
  generalize tail : padding ++ a.drop (ofs + (first.length + padding.length)) = rest
  have beyond : rest.drop (second.length + padding.length) = a.drop (ofs + ((first ++ second).length + padding.length)) := by
    rw [← tail,Nat.add_comm second.length,← List.drop_drop,List.drop_left,List.drop_drop,List.length_append]
    congr 1
    omega
  rw [List.take_left' front,← front,← List.drop_drop,List.drop_left,beyond]
  simp only [List.append_assoc]

end

section
variable {reserved dirty : Nat → Prop} {spelled : CString → Prop} {img : Nat → Sector} {s t : Volume}
  {path : CString} {f p i : Nat} {pos : Int} {words : List CString}

theorem Serving.known (serving : Serving reserved dirty spelled img s) (member : (path,f) ∈ s.vars.handles.fileTable) :
    (s.vars.handles.fileTable.find? fun entry => entry.1 == path) = some (path,f) := by
  cases found : s.vars.handles.fileTable.find? fun entry => entry.1 == path with
  | none => exact absurd rfl (find_path found _ member)
  | some entry =>
    have key := List.find?_some found
    have here : entry.1 = path := beq_iff_eq.mp key
    rw [List.inj_on_of_nodup_map serving.names (List.mem_of_find?_eq_some found) member here]

/-- A write of no byte returns that. -/
theorem inodeWriteAtStep_none (write : Writer) (buffer : List Byte) (size ofs : Int) (none : size ≤ 0) :
    ((inodeWriteAtStep write p buffer size ofs).exec s).1 = 0 := by
  have idle (data : Sector) (u : Volume) : (writeLoop data buffer size.toNat size ofs 0).exec u = (0,u) := by
    rw [Int.toNat_of_nonpos none]
    rfl
  have rest (ready : Bool × Volume) : ((if ready.1 = true then (do
      let h ← getHandles
      writeLoop (h.inode p).data buffer size.toNat size ofs 0) else pure 0 : FsM Int).exec ready.2).1 = 0 := by
    rw [Task.exec_ite]
    split
    · simp only [Task.exec_bind,exec_getHandles,idle]
    · rfl
  unfold inodeWriteAtStep
  rw [Task.exec_bind,exec_getHandles]
  dsimp only
  rw [Task.exec_ite]
  split
  · rfl
  · rw [Task.exec_bind,Task.exec_bind]
    exact rest _

theorem fileWrite_none (f : Nat) (buffer : List Byte) (size : Int) (none : size ≤ 0) (s : Volume) :
    ((fileWrite f buffer size).exec s).1 = 0 := by
  obtain ⟨write,-,steps⟩ := inodeWriteAt_step s
  unfold fileWrite
  simp only [Task.exec_bind,exec_getHandles,steps,Task.exec_pure]
  exact inodeWriteAtStep_none write _ size _ none

/-- A write that returns the size of the words has written them. -/
theorem Serving.writeWords_full (serving : Serving reserved dirty spelled img s) (spelling : Spelling spelled)
    (member : (path,f) ∈ s.vars.handles.fileTable) (file : TableFile spelled img s path f p i pos) (some : words ≠ [])
    (complete : ((FS.writeWords path words).exec s).1 = writeSize words)
    (inside : pos.toNat ≤ (fileArray s p).length) :
    ∃ img' t, ((FS.writeWords path words).exec s).2 = t ∧ Serving reserved dirty spelled img' t ∧
      (path,f) ∈ t.vars.handles.fileTable ∧ TableFile spelled img' t path f p i (pos + (joinWords words).length) ∧
      fileArray t p = (fileArray s p).take pos.toNat ++ (joinWords words ++ [0,0]) ++
        (fileArray s p).drop (pos.toNat + ((joinWords words).length + 2)) := by
  have length := length_joinWords some
  have low := file.low
  have buffer : (writeBuffer words).set (writeSize words - 1) 0 = joinWords words ++ [0,0] := by
    rw [writeBuffer_eq some,← length,List.set_append_right _ _ (by omega)]
    congr 1
    rw [show (joinWords words).length + 2 - 1 - (joinWords words).length = 1 by omega]
    rfl
  have run : (FS.writeWords path words).exec s = (FS.fileWrite f (writeBuffer words) (i32 (writeSize words))).exec s := by
    unfold FS.writeWords fsutilWrite
    rw [Task.exec_bind,exec_tableFile_known s _ (serving.known member)]
  rw [run] at complete ⊢
  have small : writeSize words < 2147483648 := by
    have bounds := i32_bounds (writeSize words)
    generalize i32 (writeSize words) = size at complete bounds
    rcases Int.lt_or_le 0 size with positive | none
    · obtain ⟨n,rfl⟩ := Int.eq_ofNat_of_zero_le (Int.le_of_lt positive)
      obtain ⟨full,t,wrote,-⟩ := serving.fileWrite spelling member file (writeBuffer words) n (by omega) (by omega)
      rw [wrote] at complete
      change (if full = true then (n : Int) else 0) = _ at complete
      split at complete <;> omega
    · rw [fileWrite_none f (writeBuffer words) size none s] at complete
      omega
  rw [i32_of_bounds _ (by omega) (by omega)] at complete ⊢
  obtain ⟨full,t,wrote,outcome⟩ := serving.fileWrite spelling member file (writeBuffer words) (writeSize words) (by omega) small
  have success : full = true := by
    by_contra failed
    rw [wrote,if_neg failed] at complete
    change (0 : Int) = _ at complete
    omega
  obtain ⟨img',serving',file'⟩ := outcome.serving
  have next : pos + ((if full = true then (writeSize words : Int) else 0) - 2) = pos + (joinWords words).length := by
    rw [if_pos success]
    omega
  have bound := (outcome.exact.mp success).1
  rw [wrote,next]
  refine ⟨img',_,rfl,serving'.setPos spelling (outcome.table ▸ member) file' _ (by omega) (by omega),outcome.table ▸ member,
    file'.moved _ (by omega) (by omega),?_⟩
  have bytes := outcome.bytes
  rw [if_pos success,buffer,arrayWrite_append (by rw [List.length_append]; exact length) inside,← length] at bytes
  exact bytes

theorem TableFile.length_eq (file : TableFile spelled img s path f p i pos) (serving : Serving reserved dirty spelled img s) :
    (s.vars.handles.inode p).data.length = (fileArray s p).length := by
  have inode : s.vars.handles.inode p = ⟨entrySector s i,1,false,0,img (entrySector s i)⟩ :=
    ObjectHeap.deref_of_cell _ _ _ file.cell
  rw [file.array_eq,length_contents,Int.toNat_of_nonneg (serving.layout.natural _ (serving.owns file.listed.1).1),inode]

end

section
variable {reserved dirty : Nat → Prop} {spelled : CString → Prop} {img : Nat → Sector} {s t u : FileSys}
  {path : CString} {f p i : Nat} {pos : Int} {texts : List (List CString)}

/-- The run lemma: the texts stand one after the other from the position of the first on. -/
theorem Serving.fullWrites (spelling : Spelling spelled) (writes : FullWrites path s texts t)
    (serving : Serving reserved dirty spelled img (volume s)) (member : (path,f) ∈ s.vars.handles.fileTable)
    (file : TableFile spelled img (volume s) path f p i pos) (some : texts ≠ [])
    (inside : pos.toNat ≤ (fileArray (volume s) p).length) :
    ∃ img', Serving reserved dirty spelled img' (volume t) ∧ (path,f) ∈ t.vars.handles.fileTable ∧
      TableFile spelled img' (volume t) path f p i (pos + (texts.flatMap joinWords).length) ∧
      fileArray (volume t) p = (fileArray (volume s) p).take pos.toNat ++ (texts.flatMap joinWords ++ [0,0]) ++
        (fileArray (volume s) p).drop (pos.toNat + ((texts.flatMap joinWords).length + 2)) := by
  induction writes generalizing img pos with
  | done => exact absurd rfl some
  | @write s t words more filled complete rest ih =>
    have low := file.low
    have complete' : ((FS.writeWords path words).exec (volume s)).1 = writeSize words := by
      rw [exec_volume]
      exact complete
    obtain ⟨img₁,v,state,serving₁,member₁,file₁,bytes⟩ := serving.writeWords_full spelling member file filled complete' inside
    rw [exec_volume] at state
    obtain rfl : volume ((FS.writeWords path words).exec s).2 = v := state
    rw [List.flatMap_cons]
    cases more with
    | nil =>
      cases rest
      rw [List.flatMap_nil,List.append_nil]
      exact ⟨img₁,serving₁,member₁,file₁,bytes⟩
    | cons next more =>
      have next : (pos + (joinWords words).length).toNat = pos.toNat + (joinWords words).length := by omega
      obtain ⟨img₂,serving₂,member₂,file₂,bytes₂⟩ := ih serving₁ member₁ file₁ (List.cons_ne_nil _ _) (by
        rw [next,bytes]
        simp only [List.length_append,List.length_take]
        omega)
      refine ⟨img₂,serving₂,member₂,?_,?_⟩
      · rw [List.length_append,Int.natCast_add,← Int.add_assoc]
        exact file₂
      · rw [bytes₂,next,bytes]
        exact overwrite_padding _ _ _ [0,0] _ inside

/-- Commands `write` on a file that is open at its start: their texts stand one after the
other, two null bytes follow, and the rest of the file is as it was. -/
theorem writes_append_texts (c : CacheStore) (fits : Formattable c.cache.fsDevice.size) (reached : Reached (formatted c) s)
    (spelling : Spelling spelled) (run : CommandRun spelled s u) (member : (path,f) ∈ u.vars.handles.fileTable)
    (start : (u.vars.handles.file f).pos = 0) (some : texts ≠ []) (writes : FullWrites path u texts t) :
    (t.vars.handles.file f).pos = (texts.flatMap joinWords).length ∧
      (t.vars.handles.file f).inode = (u.vars.handles.file f).inode ∧
      fileArray (volume t) (t.vars.handles.file f).inode = texts.flatMap joinWords ++ [0,0] ++
        (fileArray (volume u) (u.vars.handles.file f).inode).drop ((texts.flatMap joinWords).length + 2) ∧
      (t.vars.handles.inode (t.vars.handles.file f).inode).data.length =
        max (u.vars.handles.inode (u.vars.handles.file f).inode).data.length ((texts.flatMap joinWords).length + 2) := by
  obtain ⟨reserved,dirty,sane⟩ := formatted_sane c fits
  obtain ⟨img,serving⟩ := run.serving spelling (sane.reached reached).mounted
  obtain ⟨p,i,pos,file⟩ := serving.files (path,f) member
  have here : u.vars.handles.file f = ⟨p,pos,false⟩ := file.file_eq
  rw [here] at start ⊢
  obtain rfl : pos = 0 := start
  obtain ⟨img',serving',-,file',bytes⟩ := serving.fullWrites spelling writes member file some (Nat.zero_le _)
  have there : t.vars.handles.file f = ⟨p,0 + (texts.flatMap joinWords).length,false⟩ := file'.file_eq
  rw [there]
  have array : fileArray (volume t) p = texts.flatMap joinWords ++ [0,0] ++
      (fileArray (volume u) p).drop ((texts.flatMap joinWords).length + 2) := by
    rw [bytes,Int.toNat_zero,List.take_zero,List.nil_append,Nat.zero_add]
  have before : (u.vars.handles.inode p).data.length = (fileArray (volume u) p).length := file.length_eq serving
  have after : (t.vars.handles.inode p).data.length = (fileArray (volume t) p).length := file'.length_eq serving'
  refine ⟨Int.zero_add _,rfl,array,?_⟩
  dsimp only
  rw [after,before,array]
  simp only [List.length_append,List.length_drop,List.length_cons,List.length_nil]
  omega

end
/-- A write inside the file is complete. -/
theorem Serving.writeWords_inside {reserved dirty : Nat → Prop} {spelled : CString → Prop} {img : Nat → Sector} {s : Volume}
    {path : CString} {f p i : Nat} {pos : Int} {words : List CString} (serving : Serving reserved dirty spelled img s)
    (spelling : Spelling spelled) (member : (path,f) ∈ s.vars.handles.fileTable)
    (file : TableFile spelled img s path f p i pos) (some : words ≠ [])
    (inside : pos.toNat + writeSize words ≤ (img (entrySector s i)).length) :
    ((FS.writeWords path words).exec s).1 = writeSize words := by
  have limit := serving.layout.limit _ (serving.owns file.listed.1).1
  have length := length_joinWords some
  obtain ⟨full,t,wrote,outcome⟩ := serving.fileWrite spelling member file (writeBuffer words) (writeSize words) (by omega)
    (by omega)
  have success : full = true := by
    rw [outcome.exact]
    refine ⟨by omega,?_⟩
    rw [need,if_pos (by omega)]
    exact Nat.zero_le _
  unfold FS.writeWords fsutilWrite
  rw [Task.exec_bind,exec_tableFile_known s _ (serving.known member)]
  dsimp only
  rw [i32_of_bounds _ (by omega) (by omega),wrote,if_pos success]

theorem blankStore_appends : ∃ s u t f, Reached (formatted blankStore) s ∧ CommandRun (fun path => path = nameA) s u ∧
    (nameA,f) ∈ u.vars.handles.fileTable ∧ FullWrites nameA u [[five,five]] t ∧ (t.vars.handles.file f).pos = 3 := by
  have work {reserved dirty : Nat → Prop} (s : FileSys) (d : Sector) (mounted : Mounted reserved dirty (volume s))
      (start : startOf (volume s) nameA = some (0,d)) (length : d.length = 5000) : ∃ u t f,
      CommandRun (fun path => path = nameA) s u ∧ (nameA,f) ∈ u.vars.handles.fileTable ∧
        (u.vars.handles.file f).pos = 0 ∧ FullWrites nameA u [[five,five]] t := by
    have serving := mounted.serving fun path => path = nameA
    obtain ⟨result,h,run,after,opened⟩ := serving.fsutilSize spelling_nameA rfl
    obtain ⟨f,p,i,member,file,image⟩ := opened _ start
    have state : volume ((FileCommand.size nameA).task.exec s).2 = withHandles (volume s) h := by
      rw [exec_volume] at run
      unfold FileCommand.task
      dsimp only
      rw [Task.exec_bind,Task.exec_ite]
      split <;> exact (Prod.mk.inj run).2
    have same : entrySector (withHandles (volume s) h) i = entrySector (volume s) i := rfl
    have complete := after.writeWords_inside spelling_nameA member file (List.cons_ne_nil five [five]) (by
      rw [same,image,length]
      dsimp only
      decide)
    rw [← state,exec_volume] at complete
    refine ⟨((FileCommand.size nameA).task.exec s).2,_,f,.step (.size nameA) .start rfl trivial,?_,?_,
      .write (List.cons_ne_nil _ _) complete (.done _)⟩
    · have handles := congrArg (fun v : Volume => v.vars.handles) state
      change ((FileCommand.size nameA).task.exec s).2.vars.handles = h at handles
      rw [handles]
      exact member
    · have handles := congrArg (fun v : Volume => v.vars.handles) state
      change ((FileCommand.size nameA).task.exec s).2.vars.handles = h at handles
      rw [handles]
      exact congrArg File.pos file.file_eq
  obtain ⟨s,d,reached,start,length⟩ := blankStore_created
  obtain ⟨reserved,dirty,sane⟩ := formatted_sane blankStore blankStore_formattable
  obtain ⟨u,t,f,run,member,fresh,writes⟩ := work s d (sane.reached reached).mounted start length
  exact ⟨s,u,t,f,reached,run,member,writes,(writes_append_texts blankStore blankStore_formattable reached spelling_nameA run
    member fresh (List.cons_ne_nil _ _) writes).1⟩

end MyShell.FS
