import MyShell.FS.Layout
import Mathlib.Data.List.Perm.Subperm
import Mathlib.Data.List.Nodup

/-! A reservation takes the missing blocks and nothing else: the sectors it marks are
counted by the blocks it was missing. -/
namespace MyShell.FS
open BlockProgram PointerForest Bitmap

section
variable {b c : Bitmap} {l : List Nat}

theorem countP_split {α : Type} (p q : α → Bool) (l : List α) (sub : ∀ a, q a = true → p a = true) :
    (l.countP fun a => p a && !q a) + l.countP q = l.countP p := by
  induction l with
  | nil => rfl
  | cons a rest ih =>
    simp only [List.countP_cons]
    cases second : q a with
    | false => cases first : p a <;> simp <;> omega
    | true =>
      simp [sub a second]
      omega

/-- The bits that are set in `c` only. -/
def newBits (b c : Bitmap) : List Nat := (List.range b.bitCnt).filter fun i => !bitmapTest b i && bitmapTest c i

theorem length_newBits (size : c.bitCnt = b.bitCnt)
    (mono : ∀ x, bitmapTest b x = true → bitmapTest c x = true) :
    (newBits b c).length + c.clearCount = b.clearCount := by
  have split := countP_split (fun i => bitmapTest b i == false) (fun i => bitmapTest c i == false)
    (List.range b.bitCnt) fun i clear => by
      cases before : bitmapTest b i with
      | false => rfl
      | true =>
        rw [mono i before] at clear
        contradiction
  have counted (i : Nat) : (bitmapTest b i == false && !(bitmapTest c i == false)) = (!bitmapTest b i && bitmapTest c i) := by
    cases bitmapTest b i <;> cases bitmapTest c i <;> rfl
  simp only [counted] at split
  unfold newBits clearCount bitmapCount bitmapSize
  rw [← List.countP_eq_length_filter,size]
  simpa only [Nat.zero_add] using split

/-- As many new bits as were counted are all the new bits. -/
theorem mem_of_newBits (size : c.bitCnt = b.bitCnt) (mono : ∀ x, bitmapTest b x = true → bitmapTest c x = true)
    (unused : ∀ x, bitmapTest c x = true → x < c.bitCnt) (distinct : l.Nodup)
    (new : ∀ y ∈ l, bitmapTest b y = false ∧ bitmapTest c y = true)
    (count : c.clearCount + l.length = b.clearCount) (y : Nat) (clear : bitmapTest b y = false)
    (set : bitmapTest c y = true) : y ∈ l := by
  have member (x : Nat) (before : bitmapTest b x = false) (after : bitmapTest c x = true) : x ∈ newBits b c := by
    have inside := unused x after
    rw [newBits,List.mem_filter,List.mem_range,before,after]
    exact ⟨by omega,rfl⟩
  have sub : l ⊆ newBits b c := fun x inside => member x (new x inside).1 (new x inside).2
  have total := length_newBits size mono
  have perm := (List.subperm_of_subset distinct sub).perm_of_length_le (by omega)
  exact perm.mem_iff.mpr (member y clear set)

end

theorem reachEntries_nodup (below : Nat → List (List Nat)) (distinct : ∀ n, (below n).Nodup) (unit count i n : Nat) :
    (reachEntries below unit count i n).Nodup := by
  induction count generalizing i n with
  | zero => exact List.nodup_nil
  | succ count ih =>
    refine List.nodup_append'.mpr ⟨(distinct _).map fun p q same => congrArg Prod.snd same,ih _ _,?_⟩
    intro k here later
    obtain ⟨path,-,same⟩ := List.mem_map.mp here
    have after := (mem_reachEntries below unit count (i+1) _ k later).1
    rw [← same] at after
    exact absurd after (by simp)

theorem reach_nodup (level n : Nat) : (reach level n).Nodup := by
  induction level generalizing n with
  | zero => exact List.nodup_singleton _
  | succ level ih =>
    refine List.nodup_cons.mpr ⟨fun member => ?_,(reachEntries_nodup _ ih _ _ _ _).map fun j k same => ?_⟩
    · obtain ⟨k,-,same⟩ := List.mem_map.mp member
      exact absurd same (List.cons_ne_nil _ _)
    · exact Prod.ext (List.cons.inj same).1 (List.cons.inj same).2

theorem inodeReach_nodup (n : Nat) : (inodeReach n).Nodup := by
  have direct := reachEntries_nodup (reach 0) (reach_nodup 0) 1 (min n 123) 0 (min n 123)
  have pointer (level m j : Nat) : ((reach level m).map fun path => (j,path)).Nodup :=
    (reach_nodup level m).map fun p q same => congrArg Prod.snd same
  have first (level m j : Nat) (c : Prop) [Decidable c] (k : Nat × List Nat)
      (member : k ∈ if c then [] else (reach level m).map fun path => (j,path)) : k.1 = j := by
    split at member
    · contradiction
    · obtain ⟨path,-,same⟩ := List.mem_map.mp member
      rw [← same]
  have part (level m j : Nat) (c : Prop) [Decidable c] :
      (if c then [] else (reach level m).map fun path => (j,path)).Nodup := by
    split
    · exact List.nodup_nil
    · exact pointer level m j
  refine List.nodup_append'.mpr ⟨direct,List.nodup_append'.mpr ⟨part 1 _ 123 _,part 2 _ 124 _,?_⟩,?_⟩
  · intro k single double
    have left := first 1 _ 123 _ k single
    have right := first 2 _ 124 _ k double
    omega
  · intro k low high
    have small := (mem_reachEntries _ _ _ _ _ k low).2.1
    rcases List.mem_append.mp high with single | double
    · have left := first 1 _ 123 _ k single
      omega
    · have right := first 2 _ 124 _ k double
      omega

theorem below_of_mem (below : Nat → List (List Nat)) (unit count i n : Nat) (k : Nat × List Nat)
    (member : k ∈ reachEntries below unit count i n) : k.2 ∈ below (min (n - (k.1 - i) * unit) unit) := by
  induction count generalizing i n with
  | zero => exact absurd member List.not_mem_nil
  | succ count ih =>
    rcases List.mem_append.mp member with here | later
    · obtain ⟨path,inside,rfl⟩ := List.mem_map.mp here
      rw [Nat.sub_self,Nat.zero_mul,Nat.sub_zero]
      exact inside
    · have after := (mem_reachEntries _ _ _ _ _ k later).1
      have inside := ih (i+1) _ later
      obtain ⟨m,same⟩ := Nat.exists_eq_add_of_le after
      have step : (k.1 - i) * unit = (k.1 - (i+1)) * unit + unit := by
        rw [← Nat.succ_mul]
        congr 1
        omega
      have rest : min (n - min n unit - (k.1 - (i+1)) * unit) unit = min (n - (k.1 - i) * unit) unit := by
        rw [step]
        generalize (k.1 - (i+1)) * unit = far
        omega
      exact rest ▸ inside

/-- What a level reaches are its blocks and the data blocks below them. -/
theorem reach_one (n : Nat) (path : List Nat) (member : path ∈ reach 1 n) : path = [] ∨ ∃ i < n, path = [i] := by
  rcases List.mem_cons.mp member with top | below
  · exact Or.inl top
  · obtain ⟨k,inside,rfl⟩ := List.mem_map.mp below
    rw [show entryUnit (0+1) = 1 from rfl,Nat.add_sub_cancel,Nat.div_one] at inside
    obtain ⟨-,high,m,-,leaf⟩ := mem_reachEntries _ _ _ _ _ k inside
    exact Or.inr ⟨k.1,by omega,by rw [List.mem_singleton.mp leaf]⟩

theorem reach_leaf (n i : Nat) (inside : i < n) : [i] ∈ reach 1 n := by
  rw [reach,show entryUnit (0+1) = 1 from rfl,Nat.add_sub_cancel,Nat.div_one]
  exact List.mem_cons_of_mem _ (List.mem_map.mpr ⟨(i,[]),direct_reach n i inside,rfl⟩)

/-- Every block that the first `n` data blocks need is on the way to one of them. -/
theorem inodeReach_above (n : Nat) (k : Nat × List Nat) (member : k ∈ inodeReach n) :
    ∃ j < n, j < 16635 ∧ (dataPath j).1 = k.1 ∧ k.2 <+: (dataPath j).2 := by
  rcases List.mem_append.mp member with direct | rest
  · obtain ⟨-,high,m,-,leaf⟩ := mem_reachEntries _ _ _ _ _ k direct
    refine ⟨k.1,by omega,by omega,?_⟩
    rw [dataPath,if_pos (by omega)]
    exact ⟨rfl,by rw [List.mem_singleton.mp leaf]⟩
  · rcases List.mem_append.mp rest with single | double
    · split at single
      · exact absurd single List.not_mem_nil
      · obtain ⟨path,inside,rfl⟩ := List.mem_map.mp single
        have place (i : Nat) (less : i < 128) : dataPath (123 + i) = (123,[i]) := by
          rw [dataPath,if_neg (by omega),if_pos (by omega),Nat.add_sub_cancel_left]
        rcases reach_one _ _ inside with rfl | ⟨i,less,rfl⟩
        · exact ⟨123 + 0,by omega,by omega,by rw [place 0 (by omega)],List.nil_prefix⟩
        · exact ⟨123 + i,by omega,by omega,by rw [place i (by omega)],by rw [place i (by omega)]⟩
    · split at double
      · exact absurd double List.not_mem_nil
      · obtain ⟨path,inside,rfl⟩ := List.mem_map.mp double
        have place (i j : Nat) (left : i < 128) (right : j < 128) : dataPath (251 + (128 * i + j)) = (124,[i,j]) := by
          rw [dataPath,if_neg (by omega),if_neg (by omega),Nat.add_sub_cancel_left,show (128 * i + j) / 128 = i by omega,
            show (128 * i + j) % 128 = j by omega]
        rcases List.mem_cons.mp inside with rfl | below
        · exact ⟨251 + (128 * 0 + 0),by omega,by omega,by rw [place 0 0 (by omega) (by omega)],List.nil_prefix⟩
        · obtain ⟨k,entry,rfl⟩ := List.mem_map.mp below
          change k ∈ reachEntries (reach 1) 128 ((min (n - 123 - 128) 16384 + 128 - 1) / 128) 0 _ at entry
          have low := (mem_reachEntries _ _ _ _ _ k entry).2.1
          have under := below_of_mem _ _ _ _ _ k entry
          rw [Nat.sub_zero] at under
          have start : k.1 * 128 < min (n - 123 - 128) 16384 := by omega
          rcases reach_one _ _ under with leaf | ⟨j,less,leaf⟩
          · refine ⟨251 + (128 * k.1 + 0),by omega,by omega,by rw [place k.1 0 (by omega) (by omega)],?_⟩
            rw [place k.1 0 (by omega) (by omega),leaf]
            exact ⟨[0],rfl⟩
          · refine ⟨251 + (128 * k.1 + j),by omega,by omega,by rw [place k.1 j (by omega) (by omega)],?_⟩
            rw [place k.1 j (by omega) (by omega),leaf]

/-- The blocks that the first `n` data blocks need are those on the ways to them. -/
theorem mem_inodeReach (n : Nat) (k : Nat × List Nat) :
    k ∈ inodeReach n ↔ ∃ j < n, j < 16635 ∧ (dataPath j).1 = k.1 ∧ k.2 <+: (dataPath j).2 := by
  refine ⟨inodeReach_above n k,?_⟩
  obtain ⟨pointer,path⟩ := k
  rintro ⟨j,low,limit,rfl,inside⟩
  have data := inodeReach_data n j low limit
  dsimp only at inside
  rcases Nat.lt_or_ge j 123 with direct | indirect
  · have place : dataPath j = (j,[]) := if_pos direct
    rw [place] at inside data ⊢
    rw [List.prefix_nil.mp inside]
    exact data
  · refine List.mem_append_right _ ?_
    rcases Nat.lt_or_ge j 251 with single | double
    · have place : dataPath j = (123,[j - 123]) := by rw [dataPath,if_neg (by omega),if_pos single]
      rw [place] at inside ⊢
      rw [if_neg (show n - 123 ≠ 0 by omega)]
      refine List.mem_append_left _ (List.mem_map_of_mem ?_)
      rcases List.prefix_cons_iff.mp inside with rfl | ⟨rest,rfl,empty⟩
      · exact List.mem_cons_self
      · rw [List.prefix_nil.mp empty]
        exact reach_leaf _ _ (by omega)
    · have place : dataPath j = (124,[(j - 251) / 128,(j - 251) % 128]) := by
        rw [dataPath,if_neg (by omega),if_neg (by omega)]
      rw [place] at inside ⊢
      rw [if_neg (show n - 123 - 128 ≠ 0 by omega)]
      refine List.mem_append_right _ (List.mem_map_of_mem ?_)
      rcases List.prefix_cons_iff.mp inside with rfl | ⟨rest,rfl,below⟩
      · exact List.mem_cons_self
      · refine List.mem_cons_of_mem _ (List.mem_map.mpr ⟨((j - 251) / 128,rest),?_,rfl⟩)
        change _ ∈ reachEntries (reach 1) 128 ((min (n - 123 - 128) 16384 + 128 - 1) / 128) 0 _
        refine mem_reachEntries_of _ _ _ _ _ _ _ (Nat.zero_le _) (by omega) ?_
        rcases List.prefix_cons_iff.mp below with rfl | ⟨last,rfl,empty⟩
        · exact List.mem_cons_self
        · rw [List.prefix_nil.mp empty]
          exact reach_leaf _ _ (by omega)

theorem inodeReach_mono {m n : Nat} (longer : m ≤ n) (k : Nat × List Nat) (member : k ∈ inodeReach m) :
    k ∈ inodeReach n := by
  obtain ⟨j,low,rest⟩ := (mem_inodeReach m k).mp member
  exact (mem_inodeReach n k).mpr ⟨j,Nat.lt_of_lt_of_le low longer,rest⟩

section
variable {reserved dirty : Nat → Prop} {s t : Volume} {d d' : Sector}

theorem node_prefix {mem : Nat → Sector} {p : Nat} {above path : List Nat} (inside : above <+: path)
    (present : node blocks mem p path ≠ 0) : node blocks mem p above ≠ 0 := by
  induction above generalizing p path with
  | nil =>
    intro null
    change p = 0 at null
    rw [null,node_null] at present
    exact present rfl
  | cons i above ih =>
    obtain ⟨rest,rfl⟩ := inside
    have top : p ≠ 0 := fun null => present (by rw [null]; exact node_null _ _ _)
    rw [List.cons_append,node_cons _ _ _ _ _ top] at present
    rw [node_cons _ _ _ _ _ top]
    exact ih (List.prefix_append _ _) present

/-- A file all of whose data is present has all the blocks its length reaches. -/
theorem Present.complete {mem : Nat → Sector} {length : Nat} (present : Present d mem length) (limit : length ≤ 8517120)
    (k : Nat × List Nat) (reached : k ∈ inodeReach (bytesToSectors length)) :
    node blocks mem (d.word k.1) k.2 ≠ 0 := by
  obtain ⟨j,low,-,same,inside⟩ := inodeReach_above _ k reached
  rw [bytesToSectors_nat length (by omega)] at low
  have data := present j (by omega)
  unfold dataSector at data
  rw [same] at data
  exact node_prefix inside data

/-- The sectors a complete reservation marks are the blocks that were missing. -/
theorem Reserves.exact {keys : List (Nat × List Nat)} (run : Reserves reserved dirty height 125 keys true s d t d')
    (distinct : keys.Nodup) (inside : ∀ k ∈ keys, Key blocks height isPointer k.1 k.2) (y : Nat)
    (clear : bitmapTest s.vars.freeMap y = false) (set : bitmapTest t.vars.freeMap y = true) :
    ∃ k ∈ keys, node blocks s.device (d.word k.1) k.2 = 0 ∧ node blocks t.device (d'.word k.1) k.2 = y := by
  let absent := keys.filter fun k => node blocks s.device (d.word k.1) k.2 == 0
  have mem (k : Nat × List Nat) (member : k ∈ absent) :
      Key blocks height isPointer k.1 k.2 ∧ node blocks s.device (d.word k.1) k.2 = 0 ∧
        node blocks t.device (d'.word k.1) k.2 ≠ 0 := by
    obtain ⟨listed,null⟩ := List.mem_filter.mp member
    exact ⟨inside k listed,beq_iff_eq.mp null,run.cover rfl k listed⟩
  have nodup : (absent.map fun k => node blocks t.device (d'.word k.1) k.2).Nodup := by
    refine List.Nodup.map_on (fun j first k second same => ?_) (distinct.filter _)
    obtain ⟨key,null,taken⟩ := mem j first
    obtain ⟨key',null',-⟩ := mem k second
    obtain ⟨pointer,path⟩ := run.grow.single j.1 j.2 k.1 k.2 key key' null null' taken same
    exact Prod.ext pointer path
  have count : t.vars.freeMap.clearCount + (absent.map fun k => node blocks t.device (d'.word k.1) k.2).length =
      s.vars.freeMap.clearCount := by
    rw [List.length_map,← List.countP_eq_length_filter]
    exact run.allocated.count rfl
  have found := mem_of_newBits run.allocated.size run.allocated.mono (fun x marked => by
      by_contra beyond
      rw [run.ready.packed.unused x (Nat.le_of_not_lt beyond)] at marked
      exact Bool.false_ne_true marked) nodup (fun x member => ?_) count y clear set
  · obtain ⟨k,member,same⟩ := List.mem_map.mp found
    exact ⟨k,(List.mem_filter.mp member).1,(mem k member).2.1,same⟩
  · obtain ⟨k,member,same⟩ := List.mem_map.mp member
    obtain ⟨key,null,taken⟩ := mem k member
    obtain ⟨free,used⟩ := run.grow.fresh k.1 k.2 key null taken
    rw [← same]
    exact ⟨Bool.not_eq_true _ ▸ free,used⟩

/-- The sectors an inode owns: its own, and the blocks its length reaches. -/
def ownedSectors (d : Sector) (mem : Nat → Sector) (x : Nat) : List Nat :=
  x :: (inodeReach (bytesToSectors d.length)).map fun k => node blocks mem (d.word k.1) k.2

theorem ownedSectors_congr {d : Sector} {mem mem' : Nat → Sector} (same : SameTree d mem mem') (x : Nat) :
    ownedSectors d mem' x = ownedSectors d mem x := by
  unfold ownedSectors
  rw [List.map_congr_left fun k reached => same k.1 k.2 (inodeReach_key _ k reached)]

/-- What an extension adds: the blocks that were there stay, every block it brought in
was free, and every sector it marked is among the sectors the inode then owns. -/
structure Gains (s t : Volume) (d d' : Sector) (x : Nat) : Prop where
  kept : ∀ pointer path, Key blocks height isPointer pointer path → node blocks s.device (d.word pointer) path ≠ 0 →
    node blocks t.device (d'.word pointer) path = node blocks s.device (d.word pointer) path
  exact : ∀ y, bitmapTest t.vars.freeMap y = true → bitmapTest s.vars.freeMap y = true ∨ y ∈ ownedSectors d' t.device x
  fresh : ∀ pointer path, Key blocks height isPointer pointer path → node blocks t.device (d'.word pointer) path ≠ 0 →
    node blocks t.device (d'.word pointer) path = node blocks s.device (d.word pointer) path ∨
      bitmapTest s.vars.freeMap (node blocks t.device (d'.word pointer) path) = false

theorem Gains.refl (d : Sector) (x : Nat) : Gains s s d d x :=
  ⟨fun _ _ _ _ => rfl,fun _ marked => Or.inl marked,fun _ _ _ _ => Or.inl rfl⟩

theorem Gains.rewrite {u : Volume} {x : Nat} (gains : Gains s t d d' x) (same : SameTree d' t.device u.device)
    (freeMap : u.vars.freeMap = t.vars.freeMap) : Gains s u d d' x := by
  refine ⟨fun pointer path key present => ?_,fun y marked => ?_,fun pointer path key present => ?_⟩
  · rw [same pointer path key]
    exact gains.kept pointer path key present
  · rw [ownedSectors_congr same]
    exact gains.exact y (freeMap ▸ marked)
  · rw [same pointer path key] at present ⊢
    exact gains.fresh pointer path key present

theorem Gains.source {e : Sector} {x : Nat} (gains : Gains s t d d' x) (same : ∀ j < 125, d.word j = e.word j) :
    Gains s t e d' x := by
  refine ⟨fun pointer path key present => ?_,gains.exact,fun pointer path key present => ?_⟩
  · rw [← same pointer key.dom] at present ⊢
    exact gains.kept pointer path key present
  · rw [← same pointer key.dom]
    exact gains.fresh pointer path key present

/-- A complete reservation, once the new length is in the inode. -/
theorem Reserves.gains {d₀ : Sector} {total : Int} {mem : Nat → Sector}
    (run : Reserves reserved dirty height 125 (inodeReach (bytesToSectors total)) true s d₀ t d)
    (start : ∀ j < 125, d₀.word j = d'.word j) (low : -2147483648 ≤ total) (high : total < 2147483648)
    (same : SameTree (d.setLength total) t.device mem) (x : Nat) :
    Gains s ⟨t.vars,mem⟩ d' (d.setLength total) x := by
  have words (j : Nat) (inside : j < 125) : (d.setLength total).word j = d.word j :=
    word_setLength _ _ _ (by omega) (by omega)
  refine ⟨fun pointer path key present => ?_,fun y marked => ?_,fun pointer path key present => ?_⟩
  · rw [← start pointer key.dom] at present ⊢
    rw [same pointer path key,words pointer key.dom]
    exact run.grow.kept pointer path key present
  · cases before : bitmapTest s.vars.freeMap y with
    | true => exact Or.inl rfl
    | false =>
      obtain ⟨k,member,-,there⟩ := run.exact (inodeReach_nodup _) (fun k member => inodeReach_key _ k member) y before marked
      have key := inodeReach_key _ k member
      refine Or.inr (List.mem_cons_of_mem _ (List.mem_map.mpr ⟨k,?_,?_⟩))
      · rw [length_setLength d total low high]
        exact member
      · rw [same k.1 k.2 key,words k.1 key.dom,there]
  · rw [same pointer path key,words pointer key.dom] at present ⊢
    rw [← start pointer key.dom]
    by_cases null : node blocks s.device (d₀.word pointer) path = 0
    · exact Or.inr (Bool.not_eq_true _ ▸ (run.grow.fresh pointer path key null present).1)
    · exact Or.inl (run.grow.kept pointer path key null)

end
end MyShell.FS
