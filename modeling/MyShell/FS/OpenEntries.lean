import MyShell.FS.OpenTable
import MyShell.FS.FindFile

/-! The entries of the root directory while files are open: an entry is added, removed or listed, and the
files in the table stay as they are. -/
namespace MyShell.FS
open BlockProgram PointerForest Bitmap

/-- The root directory was opened in `h₀`, and then moved. -/
def RootMoved (data : Sector) (h₀ h : Handles) : Prop := ∃ k, h = (h₀.openRoot data).moveDir h₀.dirs.next k

section
variable {reserved dirty owner : Nat → Prop} {s t : Volume} {h : Handles} {name path : CString} {i k x : Nat}

theorem Tidy.closed (tidy : Tidy reserved dirty s) : RootClosed s.vars.handles :=
  ⟨tidy.serving.unset,tidy.serving.absent_root,tidy.serving.live⟩

/-- After a `filesys_create` that failed. -/
theorem Refused.tidy {done : Bool} {leaked : Nat} (refused : Refused reserved dirty (Owns (rootArray s)) s t done leaked)
    (tidy : Tidy reserved dirty s) (same : s.vars.handles.Same t.vars.handles) : Tidy reserved dirty t := by
  have serving := tidy.serving
  have array := refused.rootArray_eq owns_root
  have place := entrySector_congr array
  have layout : Layout reserved (Owns (rootArray t)) t.device t := array.symm ▸ refused.layout
  have root : RootArray (rootArray t) := array.symm ▸ serving.root
  have named : NamedRoot (rootArray t) := array.symm ▸ tidy.named
  refine ⟨serving.onto same layout refused.ready root (fun j listed => ?_) named fun path f p j pos _ file => ?_,named,
    fun j listed => ?_,tidy.list.same same⟩
  · rw [place]
    exact serving.apart j (array ▸ listed)
  · rw [array]
    exact ⟨file.listed.1,rfl,refused.kept.inodes _ (owns_listed file.listed.1)⟩
  · rw [array] at listed
    have kept : t.device (entrySector s j) = s.device (entrySector s j) := refused.kept.inodes _ (owns_listed listed)
    rw [place,kept]
    exact tidy.regular j listed

/-- After a `filesys_create` that succeeded. -/
theorem Made.tidy {size : Int} (made : Made reserved dirty (Owns (rootArray s)) s t x name size)
    (tidy : Tidy reserved dirty s) (same : s.vars.handles.Same t.vars.handles) (plain : SlashFree name)
    (good : ¬BadName (rootArray s) name) : Tidy reserved dirty t := by
  have serving := tidy.serving
  obtain ⟨positive,slot,free⟩ := freeSlot_spec serving.root.self serving.root.used
  have stored := newEntry_bytes name x made.small
  have array : rootArray t = arrayWrite (rootArray s) (newEntry name x).bytes (36 * freeSlot (rootArray s)) 36 := made.root
  obtain ⟨stays,old⟩ := made.entries serving.root
  have unowned : ¬Owns (rootArray s) x := fun owns => by
    have marked := serving.layout.marked x owns
    rw [made.clear] at marked
    exact absurd marked Bool.false_ne_true
  have layout : Layout reserved (Owns (rootArray t)) t.device t := by
    rw [array]
    exact made.layout.congr_owner fun z => owns_add slot positive free stored rfl z
  have root : RootArray (rootArray t) := by
    rw [array]
    refine serving.root.write slot positive stored fun _ j listed _ equal => unowned ?_
    have owned := owns_listed listed
    rwa [equal] at owned
  have named : NamedRoot (rootArray t) := by
    rw [array]
    exact tidy.named.add serving.root plain good made.small
  have sector {j : Nat} (after : ListedAt (rootArray t) j) :
      entrySector t j = x ∨ ListedAt (rootArray s) j ∧ entrySector t j = entrySector s j :=
    (old j after).imp (congrArg DirEntry.inodeSector) fun both => ⟨both.1,congrArg DirEntry.inodeSector both.2⟩
  have kept {j : Nat} (listed : ListedAt (rootArray s) j) : t.device (entrySector s j) = s.device (entrySector s j) :=
    made.inodes _ (owns_listed listed) (serving.apart j listed)
  refine ⟨serving.onto same layout made.ready root (fun j after => ?_) named fun path f p j pos _ file => ?_,named,
    fun j after => ?_,tidy.list.same same⟩
  · rcases sector after with new | ⟨listed,place⟩
    · rw [new]
      exact fun here => unowned (Or.inl here)
    · rw [place]
      exact serving.apart j listed
  · obtain ⟨after,entry⟩ := stays j file.listed.1
    exact ⟨after,entry,kept file.listed.1⟩
  · rcases sector after with new | ⟨listed,place⟩
    · rw [new]
      exact made.regular
    · rw [place,kept listed]
      exact tidy.regular j listed

/-- After a `filesys_remove` of a file that the table does not have. -/
theorem Removed.tidy (removed : Removed reserved dirty (Owns (rootArray s)) s t i (entrySector s i))
    (tidy : Tidy reserved dirty s) (same : s.vars.handles.Same t.vars.handles) (listed : ListedAt (rootArray s) i)
    (missing : ∀ entry ∈ s.vars.handles.fileTable, entry.1 ≠ nameAt (rootArray s) i) : Tidy reserved dirty t := by
  have serving := tidy.serving
  have stored := erasedEntry_bytes (rootArray s) i listed.inside
  have array : rootArray t = arrayWrite (rootArray s) (erasedEntry (rootArray s) i).bytes (36*i) 36 := removed.root
  have layout : Layout reserved (Owns (rootArray t)) t.device t := by
    rw [array]
    exact removed.layout.congr_owner fun z => owns_erase serving.root listed stored rfl (serving.apart i listed) z
  have root : RootArray (rootArray t) := by
    rw [array]
    exact serving.root.write (Nat.le_of_lt listed.inside) listed.positive stored fun contrary =>
      absurd contrary Bool.false_ne_true
  have named : NamedRoot (rootArray t) := by
    rw [array]
    exact tidy.named.erase listed
  have kept {j : Nat} (before : ListedAt (rootArray s) j) (other : j ≠ i) :
      t.device (entrySector s j) = s.device (entrySector s j) :=
    removed.inodes _ (owns_listed before) fun equal => other (serving.root.distinct j i before listed equal)
  refine ⟨serving.onto same layout removed.ready root (fun j after => ?_) named fun path f p j pos member file => ?_,named,
    fun j after => ?_,tidy.list.same same⟩
  · have place : entrySector t j = entrySector s j := congrArg DirEntry.inodeSector (removed.entryAt_eq listed after)
    rw [place]
    exact serving.apart j ((removed.entries listed).mp after).2
  · have other : j ≠ i := by
      rintro rfl
      exact missing _ member (file.spelled.last.symm.trans file.listed.2)
    have after := (removed.entries listed).mpr ⟨other,file.listed.1⟩
    exact ⟨after,removed.entryAt_eq listed after,kept file.listed.1 other⟩
  · have place : entrySector t j = entrySector s j := congrArg DirEntry.inodeSector (removed.entryAt_eq listed after)
    obtain ⟨other,before⟩ := (removed.entries listed).mp after
    rw [place,kept before other]
    exact tidy.regular j before

theorem Tidy.filesysCreate (tidy : Tidy reserved dirty s) (stale : List Byte) (path : CString) (size : Int)
    (low : -2147483648 ≤ size) (high : size < 2147483648) :
    ∃ done t, (FS.filesysCreate stale path size false).exec s = (done,t) ∧ s.vars.handles.Same t.vars.handles ∧
      Tidy reserved dirty t ∧ if done then filesOf s (lastName path) = none ∧ ProperName (lastName path) ∧ 0 ≤ size ∧
        size ≤ 8517120 ∧ filesOf t = Function.update (filesOf s) (lastName path) (some (List.replicate size.toNat 0))
      else filesOf t = filesOf s := by
  have serving := tidy.serving
  obtain ⟨t,same,outcome⟩ := filesysCreate_spec serving.layout serving.ready serving.origin owns_root tidy.closed
    stale path low high
  cases leak : leakAt s (splitPathFilename path).2 size with
  | some leaked =>
    rw [leak] at outcome
    obtain ⟨run,done,refused⟩ := outcome
    exact ⟨false,t,run,same,refused.tidy tidy same,refused.filesOf_eq⟩
  | none =>
    rw [leak] at outcome
    obtain ⟨run,x,made⟩ := outcome
    have good : ¬BadName (rootArray s) (lastName path) := leakAt_good leak
    have limit := made.layout.limit x (Or.inr rfl)
    rw [made.length] at limit
    have after := made.tidy tidy same (slashFree_lastName path) good
    have missing : findName (rootArray s) (lastName path) = none :=
      Option.not_isSome_iff_eq_none.mp fun known => good (Or.inr (Or.inr known))
    exact ⟨true,t,run,same,after,filesOf_missing missing,⟨Nat.pos_of_ne_zero fun empty => good (Or.inl empty),
      Nat.le_of_not_lt fun long => good (Or.inr (Or.inl long)),slashFree_lastName path⟩,(createLeak_good _ leak).1,limit,
      made.filesOf_eq serving.root serving.apart tidy.named after.named good⟩

/-- `filesys_remove` of a name that is not there. -/
theorem filesysRemove_missing (layout : Layout reserved owner s.device s) (owns : owner rootDirSector)
    (closed : RootClosed s.vars.handles) (plain : SlashFree name)
    (missing : findName (contents (s.device rootDirSector) s.device) name = none) :
    ∃ h, (FS.filesysRemove name).exec s = (false,withHandles s h) ∧ s.vars.handles.Same h := by
  have opening := exec_dirOpenPath_empty s closed
  have split := splitPathFilename_slashFree name plain
  have holds := holds_openRoot s closed.live
  have search := lookup_spec (layout.congr (t := withHandles s (s.vars.handles.openRoot (s.device rootDirSector))) rfl rfl)
    owns (by rw [holds.inode_eq,holds.data]) (dir_openRoot s.vars.handles (s.device rootDirSector)) name
  rw [withHandles_device,missing,Option.map_none] at search
  have closing := exec_closeRoot s.vars.handles (s.device rootDirSector) (s.device rootDirSector)
    (withHandles s (s.vars.handles.openRoot (s.device rootDirSector))) (.of_eq holds.setData_self.symm)
  refine ⟨_,?_,openRoot_same s.vars.handles (s.device rootDirSector) (s.device rootDirSector) closed.unset⟩
  have unchanged := holds.setData_self
  change (s.vars.handles.openRoot (s.device rootDirSector)).setData s.vars.handles.inodes.next (s.device rootDirSector) = _
    at unchanged
  unfold FS.filesysRemove dirRemove
  simp only [Task.exec_bind,split,opening,search,Task.exec_pure,closing]
  rw [unchanged]
  rfl

/-- `filesys_remove` of a file that is not open. -/
theorem filesysRemove_found (layout : Layout reserved owner s.device s) (ready : Ready reserved dirty s)
    (origin : reserved 0) (owns : owner rootDirSector) (closed : RootClosed s.vars.handles) (plain : SlashFree name)
    (found : findName (contents (s.device rootDirSector) s.device) name = some i)
    (file : ListedFile owner s (entryAt (contents (s.device rootDirSector) s.device) i).inodeSector) :
    ∃ t, (FS.filesysRemove name).exec s = (true,t) ∧ s.vars.handles.Same t.vars.handles ∧
      Removed reserved dirty owner s t i (entryAt (contents (s.device rootDirSector) s.device) i).inodeSector := by
  have opening := exec_dirOpenPath_empty s closed
  have split := splitPathFilename_slashFree name plain
  have holds := holds_openRoot s closed.live
  have unchanged := holds.setData_self
  obtain ⟨t,run,handles,removed⟩ := dirRemove_opened
    (layout.congr (t := withHandles s (s.vars.handles.openRoot (s.device rootDirSector))) rfl rfl)
    (ready.openRoot closed.live (s.device rootDirSector)) origin owns (closed.live.openInode _ _) holds
    (dir_openRoot s.vars.handles (s.device rootDirSector)) found rfl file.inode file.apart file.regular
    (openedOnce_new (closed.live.openInode _ _) (unopened_openRoot file.closed file.apart))
  have kept := openInode_same (withHandles s (s.vars.handles.openRoot (s.device rootDirSector))).vars.handles
    (s.device (entryAt (contents (s.device rootDirSector) s.device) i).inodeSector)
    (entryAt (contents (s.device rootDirSector) s.device) i).inodeSector fun c => {c with removed := true}
  have kept' := handles.symm ▸ kept
  obtain ⟨closing,same,after⟩ := Ready.closeRoot closed removed.ready (unchanged ▸ kept')
  refine ⟨_,?_,same,removed.removed.rehandle _ after⟩
  unfold FS.filesysRemove
  simp only [Task.exec_bind,split,opening,run,closing,Task.exec_pure]

theorem Tidy.filesysRemove (tidy : Tidy reserved dirty s) (plain : PlainName path)
    (missing : ∀ entry ∈ s.vars.handles.fileTable, entry.1 ≠ path) :
    ∃ t, (FS.filesysRemove path).exec s = ((filesOf s path).isSome,t) ∧ s.vars.handles.Same t.vars.handles ∧
      Tidy reserved dirty t ∧ filesOf t = Function.update (filesOf s) path none := by
  have serving := tidy.serving
  rw [filesOf_isSome]
  cases found : findName (rootArray s) path with
  | none =>
    obtain ⟨h,run,same⟩ := filesysRemove_missing serving.layout owns_root tidy.closed plain.plain found
    refine ⟨withHandles s h,run,same,tidy.same same,?_⟩
    rw [← filesOf_missing found,Function.update_eq_self]
    rfl
  | some i =>
    obtain ⟨listed,here⟩ := tidy.named.findName_iff.mp found
    have closed := serving.unopened spelling_plain plain missing (plain.last.symm ▸ found)
    obtain ⟨t,run,same,removed⟩ := filesysRemove_found serving.layout serving.ready serving.origin owns_root tidy.closed
      plain.plain found ⟨owns_listed listed,serving.apart i listed,tidy.regular i listed,closed⟩
    have after := Removed.tidy removed tidy same listed (here.symm ▸ missing)
    have files := removed.filesOf_eq serving.root serving.apart tidy.named after.named listed
    exact ⟨t,run,same,after,here ▸ files⟩

theorem modify_modify {α : Type} (heap : ObjectHeap α) (p : Nat) (f g : α → α) :
    (heap.modify p f).modify p g = heap.modify p fun c => g (f c) := by
  unfold ObjectHeap.modify
  simp only [ObjectHeap.mk.injEq,and_true]
  funext q
  by_cases same : q = p
  · rw [same,Function.update_self,Function.update_self,Function.update_self,Option.map_map]
    rfl
  · rw [Function.update_of_ne same,Function.update_of_ne same,Function.update_of_ne same]

/-- Opening the root directory, moving in it and closing it leaves no trace in memory. -/
theorem moveRoot_same (h : Handles) (data : Sector) (k : Nat) (unset : h.cwd = none) :
    h.Same (((h.openRoot data).moveDir h.dirs.next k).closeDir h.dirs.next) := by
  have dir : ((h.openRoot data).moveDir h.dirs.next k).dir h.dirs.next = ⟨h.inodes.next,(36*k : Nat),1⟩ := by
    refine ObjectHeap.deref_of_cell _ _ _ ((ObjectHeap.modify_cell _ _ _ _).trans ?_)
    rw [if_pos rfl]
    exact congrArg _ (ObjectHeap.alloc_cell_next _ _)
  unfold Handles.closeDir Handles.closeInode
  rw [dir]
  refine ⟨?_,List.erase_cons_head _ _,rfl,?_,rfl,unset.symm,rfl⟩
  · exact ((ObjectHeap.SameBut.alloc _ _).modify _).free h.inodes.next_cell
  · exact (((ObjectHeap.SameBut.alloc _ _).modify _).modify _).free h.dirs.next_cell

theorem exec_closeMoved {v : Volume} (k : Nat)
    (handles : v.vars.handles = (h.openRoot (s.device rootDirSector)).moveDir h.dirs.next k) :
    (dirClose (some h.dirs.next)).exec v = ((),withHandles v (v.vars.handles.closeDir h.dirs.next)) := by
  have dir : v.vars.handles.dirs.cell h.dirs.next = some ⟨h.inodes.next,(36*k : Nat),1⟩ := by
    rw [handles]
    refine (ObjectHeap.modify_cell _ _ _ _).trans ?_
    rw [if_pos rfl]
    exact congrArg _ (ObjectHeap.alloc_cell_next _ _)
  have inode : v.vars.handles.inodes.cell h.inodes.next = some (readInode rootDirSector (s.device rootDirSector)) := by
    rw [handles]
    exact ObjectHeap.alloc_cell_next _ _
  exact exec_dirClose_last dir rfl inode rfl rfl

theorem rootMoved_start (h : Handles) (data : Sector) : RootMoved data h (h.openRoot data) := by
  refine ⟨1,?_⟩
  unfold Handles.moveDir
  rw [ObjectHeap.modify_self]
  rw [show (h.openRoot data).dirs.cell h.dirs.next = _ from ObjectHeap.alloc_cell_next _ _]
  rfl

theorem RootMoved.moveDir {data : Sector} {h₀ : Handles} (moved : RootMoved data h₀ h) (place : Nat) :
    RootMoved data h₀ (h.moveDir h₀.dirs.next place) := by
  obtain ⟨k,rfl⟩ := moved
  refine ⟨place,?_⟩
  unfold Handles.moveDir
  rw [modify_modify]

/-- A loop over the root directory that opens nothing. -/
theorem Tidy.overRoot {γ β : Type} {next : Nat → FsM (Option γ)} {visit : γ → FsM β} (element : Nat → γ) (result : Nat → β)
    (tidy : Tidy reserved dirty s) (reads : ∀ t dir p j openCnt, rootArray t = rootArray s →
      RootHandle s.device t dir p j openCnt → Listing s.device t →
      (next dir).exec t = ((findEntry (rootArray s) (fun e => e.inUse) j).map element,
        withHandles t (t.vars.handles.moveDir dir (nextEntry (rootArray s) j))))
    (visits : ∀ (t : Volume) i, (visit (element i)).exec t = (result i,t)) :
    ∃ h, (FS.overRoot next visit).exec s = ((usedFrom (rootArray s) 1).map result,withHandles s h) ∧
      s.vars.handles.Same h := by
  have serving := tidy.serving
  have state := serving.fileState
  obtain ⟨dir,p,openCnt,h,opening,opened⟩ := state.opening
  have explicit := exec_dirOpenRoot_new s serving.unset serving.absent_root
  rw [opening] at explicit
  obtain ⟨place,handles⟩ := Prod.mk.inj explicit
  obtain rfl : dir = s.vars.handles.dirs.next := Option.some.inj place
  obtain rfl : h = s.vars.handles.openRoot (s.device rootDirSector) := congrArg (fun u : Volume => u.vars.handles) handles
  have first : startEntry s = 1 := by
    unfold startEntry
    rw [serving.unset]
  obtain ⟨t,k,run,walk⟩ := exec_overRoot opened opening serving.listing (rootMoved_start _ _)
    (fun u j walk => reads u _ p j openCnt walk.array walk.handle (walk.listing serving.listing))
    (fun _ place moved => moved.moveDir place) fun u i _ walk => ⟨u,visits u i,walk.same,walk.handle,walk.mirrors.mono (Nat.le_succ i),walk.behind,walk.more⟩
  obtain ⟨last,handles⟩ := walk.more
  rw [exec_closeMoved last handles,first,withHandles_of_same walk.same,handles] at run
  exact ⟨_,run,moveRoot_same _ _ last serving.unset⟩

end
end MyShell.FS
