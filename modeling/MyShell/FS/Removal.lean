import MyShell.FS.Creation
import MyShell.FS.Release
import MyShell.FS.Handles

/-! An inode leaves the layout: its blocks are then nobody's, and they can be released
without touching the files that stay. -/
namespace MyShell.FS
open BlockProgram PointerForest Bitmap

section
variable {reserved dirty owner wide : Nat → Prop} {img : Nat → Sector} {s t : Volume} {x p : Nat} {gone : List Nat}

/-- The inode `x` leaves. -/
theorem Layout.drop (layout : Layout reserved wide img s) (owns : wide x) (sub : ∀ z, owner z → wide z)
    (other : ¬owner x) : Layout reserved owner img s ∧ Unowned reserved owner img s x := by
  refine ⟨?_,layout.free x owns,other,fun z pointer path inside key present same => ?_⟩
  · exact layout.remark sub rfl (fun z inside => layout.marked z (sub z inside)) fun z pointer path inside key present =>
      layout.forest.marked (z,pointer) path ((inodePart (sub z inside)).key _ _ key) present
  · exact layout.forest.apart (z,pointer) path ((inodePart (sub z inside)).key _ _ key) present (Or.inr (same ▸ owns))

/-- So do its blocks. -/
theorem Layout.drop_block (layout : Layout reserved wide img s) (owns : wide x) (sub : ∀ z, owner z → wide z)
    (other : ¬owner x) (pointer : Nat) (path : List Nat) (key : Key blocks height isPointer pointer path)
    (present : node blocks s.device ((img x).word pointer) path ≠ 0) :
    Unowned reserved owner img s (node blocks s.device ((img x).word pointer) path) := by
  have apart := layout.forest.apart (x,pointer) path ((inodePart owns).key _ _ key) present
  refine ⟨fun taken => apart (Or.inl taken),fun inode => apart (Or.inr (sub _ inode)),?_⟩
  intro z pointer' path' inside key' present' same
  have met := layout.forest.single (z,pointer') path' (x,pointer) path ((inodePart (sub z inside)).key _ _ key')
    ((inodePart owns).key _ _ key) present' same
  have inodes : z = x := congrArg Prod.fst met.1
  exact other (inodes ▸ inside)

/-- Releases of what nobody owns. -/
theorem Layout.releases (layout : Layout reserved owner img s) (run : Releases reserved dirty gone s t)
    (unowned : ∀ y ∈ gone, Unowned reserved owner img s y) :
    Layout reserved owner img t ∧ ∀ x, ¬owner x → Aside reserved dirty owner img x true s t := by
  obtain ⟨moved,nodes,files⟩ := layout.dirtied run.ready.within t.device run.device
  refine ⟨moved.remark (fun _ inside => inside) rfl (fun z inside => ?_) (fun z pointer path inside key present => ?_),
    fun x other => ⟨fun z inside _ => ?_,fun y _ clean _ => run.device y clean,fun z inside _ => files z inside,
      fun z inside _ => nodes z inside⟩⟩
  · exact (run.marks z).mpr ⟨layout.marked z inside,fun member => (unowned z member).other inside⟩
  · change node blocks t.device ((img z).word pointer) path ≠ 0 at present
    change bitmapTest t.vars.freeMap (node blocks t.device ((img z).word pointer) path) = true
    rw [nodes z inside pointer path key] at present ⊢
    refine (run.marks _).mpr ⟨layout.forest.marked (z,pointer) path ((inodePart inside).key _ _ key) present,fun member => ?_⟩
    exact (unowned _ member).apart z pointer path inside key present rfl
  · exact run.device z fun stained => layout.free z inside (run.ready.within z stained)

theorem Layout.owned_unowned (layout : Layout reserved wide img s) (owns : wide x) (sub : ∀ z, owner z → wide z)
    (other : ¬owner x) (y : Nat) (member : y ∈ ownedSectors (img x) s.device x) : Unowned reserved owner img s y := by
  rcases List.mem_cons.mp member with rfl | block
  · exact (layout.drop owns sub other).2
  · obtain ⟨k,reached,rfl⟩ := List.mem_map.mp block
    exact layout.drop_block owns sub other k.1 k.2 (inodeReach_key _ k reached) (layout.complete x owns k reached)

/-- The handles take no part in a release. -/
theorem Releases.handles_eq (run : Releases reserved dirty gone s t) (h : Handles)
    (ready : Ready reserved dirty (withHandles t h)) : Releases reserved dirty gone (withHandles s h) (withHandles t h) :=
  ⟨run.marks,run.size,rfl,run.panics,run.log,run.device,ready⟩

/-- Closing an inode for the last time after it was removed. -/
theorem inodeClose_removed {i : Inode} (layout : Layout reserved wide img s) (ready : Ready reserved dirty s)
    (origin : reserved 0) (owns : wide x) (cell : s.vars.handles.inodes.cell p = some i) (last : i.openCnt = 1)
    (removed : i.removed = true) (sector : i.sector = x) (data : i.data = img x)
    (apart : ∀ f, s.vars.handles.freeMapFile = some f → (s.vars.handles.file f).inode ≠ p) :
    ∃ t, (inodeClose (some p)).exec s = ((),t) ∧
      Releases reserved dirty (ownedSectors (img x) s.device x) (withHandles s (s.vars.handles.closeInode p)) t := by
  have closed := ObjectHeap.deref_modify s.vars.handles.inodes p (fun i => {i with openCnt := i.openCnt - 1}) i cell
  generalize counted : {s.vars.handles with
    openInodes := s.vars.handles.openInodes.erase p
    inodes := s.vars.handles.inodes.modify p fun i => {i with openCnt := i.openCnt - 1}} = h
  have still : Ready reserved dirty (withHandles s h) := by
    refine ready.handles h (by rw [← counted]) fun f pointer => ?_
    rw [← counted]
    exact ObjectHeap.deref_modify_of_ne _ _ _ _ (apart f pointer)
  obtain ⟨t₁,run₁,first⟩ := releases_one still isWrite_inodeWriteAt x
    ⟨layout.marked x owns,fun null => layout.free x owns (null ▸ origin),layout.free x owns⟩
  obtain ⟨t₂,run₂,second⟩ := inodeDeallocate_spec isWrite_inodeWriteAt ready.within (a := arena s) (layout.natural x owns)
    (layout.limit x owns) (fun y taken => Or.inl taken) t₁ first.ready first.device (layout.map owns) (layout.complete x owns) fun k reached => by
      have key := inodeReach_key _ k reached
      have present := layout.complete x owns k reached
      refine (first.marks _).mpr ⟨(layout.map owns).marked k.1 k.2 key present,fun same => ?_⟩
      exact (layout.map owns).apart k.1 k.2 key present (Or.inr ((congrArg wide (List.mem_singleton.mp same)).mpr owns))
  have both := first.trans second
  have freed : {h with inodes := h.inodes.free p} = s.vars.handles.closeInode p := by
    rw [← counted]
    rfl
  have same : t₂.vars.handles = h := both.handles
  have ready' : Ready reserved dirty (withHandles t₂ (s.vars.handles.closeInode p)) := by
    rw [← freed]
    refine both.ready.handles _ (by rw [same]) fun f pointer => ?_
    rw [same] at pointer ⊢
    refine ObjectHeap.deref_free_of_ne _ _ _ ?_
    rw [← counted] at pointer ⊢
    exact apart f pointer
  have moved := both.handles_eq _ ready'
  rw [withHandles_withHandles,List.singleton_append] at moved
  refine ⟨withHandles t₂ (s.vars.handles.closeInode p),?_,moved⟩
  unfold inodeClose
  simp only [Task.exec_bind,exec_modifyInode,exec_getHandles,Handles.inode,closed,last,Int.sub_self,if_true,
    exec_setHandles,removed,counted,sector,data]
  unfold withHandles at run₁
  rw [run₁,run₂,Task.exec_modify,← freed,same]
  rfl

end
end MyShell.FS
