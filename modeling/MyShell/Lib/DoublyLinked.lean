import MyShell.Lib.ObjectHeap
import Mathlib.Data.List.Chain
import Mathlib.Data.List.Perm.Subperm

/-! Nodes of a heap that point to each other both ways, taken as the sequence of their
addresses. A change of two pointers exchanges what stands between two of the nodes. -/
namespace DoublyLinked
variable {D : Type}

structure Node (D : Type) where
  data : D
  next : Option Nat
  prev : Option Nat

def next (h : ObjectHeap (Node D)) (p : Nat) : Option Nat := (h.cell p).bind Node.next

def prev (h : ObjectHeap (Node D)) (p : Nat) : Option Nat := (h.cell p).bind Node.prev

def data (h : ObjectHeap (Node D)) (p : Nat) : Option D := (h.cell p).map Node.data

def putNext (h : ObjectHeap (Node D)) (p : Nat) (q : Option Nat) : ObjectHeap (Node D) :=
  h.modify p fun node => {node with next := q}

def putPrev (h : ObjectHeap (Node D)) (p : Nat) (q : Option Nat) : ObjectHeap (Node D) :=
  h.modify p fun node => {node with prev := q}

def Link (h : ObjectHeap (Node D)) (a b : Nat) : Prop := next h a = some b ∧ prev h b = some a

def Linked (h : ObjectHeap (Node D)) (l : List Nat) : Prop := l.IsChain (Link h)

/-- The nodes passed on the way from a node to `stop`, along the pointers that `step` reads. -/
def follow (h : ObjectHeap (Node D)) (step : Node D → Option Nat) (stop : Nat) : Nat → Nat → Option (List Nat)
  | 0, _ => none
  | fuel+1, p => do
    let node ← h.cell p
    let q ← step node
    if q = stop then pure []
    else do
      let passed ← follow h step stop fuel q
      pure (q :: passed)

section
variable {h h' : ObjectHeap (Node D)} {p q r : Nat} {target : Option Nat}

theorem next_putNext_self (allocated : h.cell p ≠ none) : next (putNext h p target) p = target := by
  obtain ⟨node,cell⟩ := Option.ne_none_iff_exists'.mp allocated
  unfold next putNext
  rw [ObjectHeap.modify_cell,if_pos rfl,cell]
  rfl

theorem next_putNext_of_ne (ne : r ≠ p) : next (putNext h p target) r = next h r := by
  unfold next putNext
  rw [ObjectHeap.modify_cell,if_neg ne]

@[simp] theorem prev_putNext : prev (putNext h p target) r = prev h r := by
  unfold prev putNext
  rw [ObjectHeap.modify_cell]
  split
  · rename_i here
    rw [here]
    cases h.cell p <;> rfl
  · rfl

@[simp] theorem data_putNext : data (putNext h p target) r = data h r := by
  unfold data putNext
  rw [ObjectHeap.modify_cell]
  split
  · rename_i here
    rw [here]
    cases h.cell p <;> rfl
  · rfl

theorem prev_putPrev_self (allocated : h.cell p ≠ none) : prev (putPrev h p target) p = target := by
  obtain ⟨node,cell⟩ := Option.ne_none_iff_exists'.mp allocated
  unfold prev putPrev
  rw [ObjectHeap.modify_cell,if_pos rfl,cell]
  rfl

theorem prev_putPrev_of_ne (ne : r ≠ p) : prev (putPrev h p target) r = prev h r := by
  unfold prev putPrev
  rw [ObjectHeap.modify_cell,if_neg ne]

@[simp] theorem next_putPrev : next (putPrev h p target) r = next h r := by
  unfold next putPrev
  rw [ObjectHeap.modify_cell]
  split
  · rename_i here
    rw [here]
    cases h.cell p <;> rfl
  · rfl

@[simp] theorem data_putPrev : data (putPrev h p target) r = data h r := by
  unfold data putPrev
  rw [ObjectHeap.modify_cell]
  split
  · rename_i here
    rw [here]
    cases h.cell p <;> rfl
  · rfl

theorem putNext_putPrev_comm (h : ObjectHeap (Node D)) (a b : Nat) (x y : Option Nat) :
    putNext (putPrev h b y) a x = putPrev (putNext h a x) b y := by
  unfold putNext putPrev ObjectHeap.modify
  simp only [ObjectHeap.mk.injEq,and_true]
  funext r
  simp only [Function.update_apply]
  by_cases left : r = a
  · by_cases same : a = b
    · subst left same
      simp only [if_true,Option.map_map]
      rfl
    · subst left
      simp only [if_true,if_neg same]
  · by_cases right : r = b
    · subst right
      simp only [if_true,if_neg left]
    · simp only [if_neg left,if_neg right]

theorem cell_putNext_of_ne (ne : r ≠ p) : (putNext h p target).cell r = h.cell r :=
  (ObjectHeap.modify_cell _ _ _ _).trans (if_neg ne)

theorem cell_putPrev_of_ne (ne : r ≠ p) : (putPrev h p target).cell r = h.cell r :=
  (ObjectHeap.modify_cell _ _ _ _).trans (if_neg ne)

theorem allocated_of_data {d : D} (stored : data h p = some d) : h.cell p ≠ none := by
  intro absent
  unfold data at stored
  rw [absent] at stored
  exact Option.some_ne_none _ stored.symm

theorem allocated_of_next (points : next h p = some q) : h.cell p ≠ none := by
  intro absent
  unfold next at points
  rw [absent] at points
  exact Option.some_ne_none _ points.symm

theorem allocated_of_prev (points : prev h p = some q) : h.cell p ≠ none := by
  intro absent
  unfold prev at points
  rw [absent] at points
  exact Option.some_ne_none _ points.symm

end

section
variable {h h' : ObjectHeap (Node D)} {before middle middle' after l : List Nat} {a b : Nat}

/-- A chain depends on the pointers along it only. -/
theorem Linked.frame (linked : Linked h l) (nexts : ∀ u ∈ l.dropLast, next h' u = next h u)
    (prevs : ∀ v ∈ l.tail, prev h' v = prev h v) : Linked h' l := by
  induction linked with
  | nil => exact .nil
  | singleton u => exact .singleton u
  | @cons_cons u v l link rest ih =>
    have first : Link h' u v :=
      ⟨(nexts u List.mem_cons_self).trans link.1,(prevs v List.mem_cons_self).trans link.2⟩
    refine List.IsChain.cons_cons first (ih (fun w member => ?_) fun w member => ?_)
    · exact nexts w (List.mem_cons_of_mem _ member)
    · exact prevs w (List.mem_cons_of_mem _ member)

theorem Linked.congr (linked : Linked h l) (same : ∀ p ∈ l, h'.cell p = h.cell p) : Linked h' l := by
  refine linked.frame (fun u member => ?_) fun v member => ?_
  · exact congrArg (Option.bind · Node.next) (same u (List.dropLast_subset l member))
  · exact congrArg (Option.bind · Node.prev) (same v (List.mem_of_mem_tail member))

/-- What stands between `a` and `b` may change: the pointers outside are to be as they were. -/
theorem Linked.relink (linked : Linked h (before ++ a :: (middle ++ b :: after)))
    (between : Linked h' (a :: (middle' ++ [b]))) (nexts : ∀ u, u ∈ before ∨ u ∈ b :: after → next h' u = next h u)
    (prevs : ∀ v, v ∈ before ++ [a] ∨ v ∈ after → prev h' v = prev h v) :
    Linked h' (before ++ a :: (middle' ++ b :: after)) := by
  obtain ⟨front,rest⟩ := List.isChain_split.mp linked
  obtain ⟨-,back⟩ := List.isChain_cons_split.mp rest
  have front' : Linked h' (before ++ [a]) := by
    refine Linked.frame front (fun u member => ?_) fun v member => ?_
    · rw [List.dropLast_concat] at member
      exact nexts u (Or.inl member)
    · exact prevs v (Or.inl (List.mem_of_mem_tail member))
  have back' : Linked h' (b :: after) := by
    refine Linked.frame back (fun u member => ?_) fun v member => ?_
    · exact nexts u (Or.inr (List.dropLast_subset _ member))
    · exact prevs v (Or.inr member)
  exact List.isChain_split.mpr ⟨front',List.isChain_cons_split.mpr ⟨between,back'⟩⟩

theorem Linked.link (linked : Linked h (before ++ a :: b :: after)) : Link h a b :=
  (List.isChain_append_cons_cons.mp linked).2.1

/-- Every node of a chain of two or more is there. -/
theorem Linked.allocated (linked : Linked h (a :: (middle ++ [b]))) : ∀ p ∈ a :: (middle ++ [b]), h.cell p ≠ none := by
  induction middle generalizing a with
  | nil =>
    have link := List.isChain_pair.mp linked
    intro p member
    rcases List.mem_cons.mp member with rfl | last
    · exact allocated_of_next link.1
    · rw [List.mem_singleton.mp last]
      exact allocated_of_prev link.2
  | cons c middle ih =>
    obtain ⟨link,rest⟩ := List.isChain_cons_cons.mp linked
    intro p member
    rcases List.mem_cons.mp member with rfl | later
    · exact allocated_of_next link.1
    · exact ih rest p later

/-- The nodes outside of `a` and `b` whose pointers a change between the two leaves. -/
theorem nodup_outside (distinct : (before ++ a :: (middle ++ b :: after)).Nodup) :
    a ≠ b ∧ (∀ u, u ∈ before ∨ u ∈ b :: after → u ≠ a) ∧ ∀ v, v ∈ before ++ [a] ∨ v ∈ after → v ≠ b := by
  simp only [List.nodup_append,List.nodup_cons,List.mem_append,List.mem_cons,not_or] at distinct
  obtain ⟨-,⟨⟨-,aB,aAfter⟩,-,⟨bAfter,-⟩,-⟩,apart⟩ := distinct
  refine ⟨aB,?_,?_⟩
  · rintro u (front | back) rfl
    · exact apart u front u (Or.inl rfl) rfl
    · exact (List.mem_cons.mp back).elim aB aAfter
  · rintro v (front | back) rfl
    · rcases List.mem_append.mp front with front | last
      · exact apart v front v (Or.inr (Or.inr (Or.inl rfl))) rfl
      · exact aB (List.mem_singleton.mp last).symm
    · exact bAfter back

/-- The heap with a new node between `a` and `b`. -/
def inserted (h : ObjectHeap (Node D)) (a b : Nat) (d : D) : ObjectHeap (Node D) :=
  putPrev (putNext (h.alloc ⟨d,some b,some a⟩) a (some h.next)) b (some h.next)

/-- The heap in which `a` and `b` point to each other. -/
def joined (h : ObjectHeap (Node D)) (a b : Nat) : ObjectHeap (Node D) := putPrev (putNext h a (some b)) b (some a)

theorem joined_data (p : Nat) : data (joined h a b) p = data h p := by
  unfold joined
  rw [data_putPrev,data_putNext]

theorem joined_cell {p : Nat} (notA : p ≠ a) (notB : p ≠ b) : (joined h a b).cell p = h.cell p := by
  unfold joined
  rw [cell_putPrev_of_ne notB,cell_putNext_of_ne notA]

theorem Linked.joined (linked : Linked h (before ++ a :: (middle ++ b :: after)))
    (distinct : (before ++ a :: (middle ++ b :: after)).Nodup) : Linked (joined h a b) (before ++ a :: b :: after) := by
  obtain ⟨aB,notA,notB⟩ := nodup_outside distinct
  have present := (List.isChain_cons_split.mp (List.isChain_split.mp linked).2).1
  have thereA := Linked.allocated present a List.mem_cons_self
  have thereB := Linked.allocated present b (List.mem_cons_of_mem _ (List.mem_append_right _ List.mem_cons_self))
  have between : Linked (DoublyLinked.joined h a b) (a :: ([] ++ [b])) := by
    refine List.isChain_pair.mpr ⟨?_,prev_putPrev_self ?_⟩
    · unfold DoublyLinked.joined
      rw [next_putPrev,next_putNext_self thereA]
    · rw [cell_putNext_of_ne aB.symm]
      exact thereB
  refine linked.relink between (fun u outside => ?_) fun v outside => ?_
  · unfold DoublyLinked.joined
    rw [next_putPrev,next_putNext_of_ne (notA u outside)]
  · unfold DoublyLinked.joined
    rw [prev_putPrev_of_ne (notB v outside),prev_putNext]

/-- A chain is followed from its first node to its last, whichever pointers it is made of. -/
theorem follow_chain {step : Node D → Option Nat} {fuel : Nat}
    (chain : (a :: (middle ++ [b])).IsChain fun u v => (h.cell u).bind step = some v) (apart : b ∉ middle)
    (enough : middle.length < fuel) : follow h step b fuel a = some middle := by
  induction middle generalizing a fuel with
  | nil =>
    match fuel, enough with
    | fuel+1, _ =>
      obtain ⟨first,-⟩ := List.isChain_cons_cons.mp chain
      obtain ⟨node,cell,points⟩ := Option.bind_eq_some_iff.mp first
      rw [follow,cell]
      simp only [Option.bind_eq_bind,Option.bind_some,points,if_true]
      rfl
  | cons c middle ih =>
    match fuel, enough with
    | fuel+1, enough =>
      obtain ⟨first,rest⟩ := List.isChain_cons_cons.mp chain
      obtain ⟨node,cell,points⟩ := Option.bind_eq_some_iff.mp first
      have other : c ≠ b := fun same => apart (same ▸ List.mem_cons_self)
      have passed := ih rest (fun member => apart (List.mem_cons_of_mem _ member)) (Nat.lt_of_succ_lt_succ enough)
      rw [follow,cell]
      simp only [Option.bind_eq_bind,Option.bind_some,points,if_neg other,passed]
      rfl

theorem Linked.forwards {fuel : Nat} (linked : Linked h (a :: (middle ++ [b]))) (apart : b ∉ middle)
    (enough : middle.length < fuel) : follow h Node.next b fuel a = some middle :=
  follow_chain (linked.imp fun _ _ link => link.1) apart enough

theorem Linked.backwards {fuel : Nat} (linked : Linked h (a :: (middle ++ [b]))) (apart : a ∉ middle)
    (enough : middle.length < fuel) : follow h Node.prev a fuel b = some middle.reverse := by
  refine follow_chain ?_ (fun member => apart (List.mem_reverse.mp member)) (by rwa [List.length_reverse])
  have shape : b :: (middle.reverse ++ [a]) = (a :: (middle ++ [b])).reverse := by
    rw [List.reverse_cons,List.reverse_append,List.reverse_singleton,List.singleton_append,List.cons_append]
  rw [shape,List.isChain_reverse]
  exact linked.imp fun _ _ link => link.2

/-- There are no more nodes in a chain than addresses were handed out. -/
theorem Linked.length_lt (linked : Linked h (a :: (middle ++ [b]))) (distinct : (a :: (middle ++ [b])).Nodup) :
    middle.length < h.next := by
  have below : a :: (middle ++ [b]) ⊆ List.range h.next := fun p member => by
    obtain ⟨node,cell⟩ := Option.ne_none_iff_exists'.mp (linked.allocated p member)
    exact List.mem_range.mpr (h.lt_next p node cell)
  have length := (List.Nodup.subperm distinct below).length_le
  rw [List.length_range,List.length_cons,List.length_append] at length
  omega

theorem alloc_next_of_ne {node : Node D} {p : Nat} (old : p ≠ h.next) : next (h.alloc node) p = next h p :=
  congrArg (Option.bind · Node.next) ((ObjectHeap.alloc_cell _ _ _).trans (if_neg old))

theorem alloc_prev_of_ne {node : Node D} {p : Nat} (old : p ≠ h.next) : prev (h.alloc node) p = prev h p :=
  congrArg (Option.bind · Node.prev) ((ObjectHeap.alloc_cell _ _ _).trans (if_neg old))

theorem inserted_cell {d : D} {p : Nat} (notA : p ≠ a) (notB : p ≠ b) (old : p ≠ h.next) :
    (inserted h a b d).cell p = h.cell p := by
  unfold inserted
  rw [cell_putPrev_of_ne notB,cell_putNext_of_ne notA,ObjectHeap.alloc_cell,if_neg old]

theorem inserted_data {d : D} (p : Nat) : data (inserted h a b d) p = if p = h.next then some d else data h p := by
  unfold inserted
  rw [data_putPrev,data_putNext]
  unfold data
  rw [ObjectHeap.alloc_cell]
  split <;> rfl

theorem Linked.inserted {d : D} (linked : Linked h (before ++ a :: b :: after)) (distinct : (before ++ a :: b :: after).Nodup)
    (old : ∀ p ∈ before ++ a :: b :: after, p ≠ h.next) : Linked (inserted h a b d) (before ++ a :: h.next :: b :: after) := by
  have apart : (before ++ a :: ([] ++ b :: after)).Nodup := distinct
  obtain ⟨aB,notA,notB⟩ := nodup_outside apart
  have link := linked.link
  have oldA := old a (List.mem_append_right _ List.mem_cons_self)
  have oldB := old b (List.mem_append_right _ (List.mem_cons_of_mem _ List.mem_cons_self))
  have fresh {node : Node D} {p : Nat} (old : p ≠ h.next) (there : h.cell p ≠ none) : (h.alloc node).cell p ≠ none := by
    rw [ObjectHeap.alloc_cell,if_neg old]
    exact there
  have adjacent : Linked h (before ++ a :: ([] ++ b :: after)) := linked
  have between : Linked (DoublyLinked.inserted h a b d) (a :: ([h.next] ++ [b])) := by
    unfold DoublyLinked.inserted
    refine List.isChain_cons_cons.mpr ⟨⟨?_,?_⟩,List.isChain_pair.mpr ⟨?_,prev_putPrev_self ?_⟩⟩
    · rw [next_putPrev,next_putNext_self (fresh oldA (allocated_of_next link.1))]
    · rw [prev_putPrev_of_ne oldB.symm,prev_putNext]
      unfold prev
      rw [ObjectHeap.alloc_cell_next]
      rfl
    · rw [next_putPrev,next_putNext_of_ne oldA.symm]
      unfold next
      rw [ObjectHeap.alloc_cell_next]
      rfl
    · rw [cell_putNext_of_ne aB.symm]
      exact fresh oldB (allocated_of_prev link.2)
  refine adjacent.relink between (fun u outside => ?_) fun v outside => ?_
  · have here : u ≠ h.next := by
      refine old u ?_
      rcases outside with front | back
      · exact List.mem_append_left _ front
      · exact List.mem_append_right _ (List.mem_cons_of_mem _ back)
    unfold DoublyLinked.inserted
    rw [next_putPrev,next_putNext_of_ne (notA u outside),alloc_next_of_ne here]
  · have here : v ≠ h.next := by
      refine old v ?_
      rcases outside with front | back
      · rcases List.mem_append.mp front with front | last
        · exact List.mem_append_left _ front
        · exact List.mem_append_right _ (List.mem_singleton.mp last ▸ List.mem_cons_self)
      · exact List.mem_append_right _ (List.mem_cons_of_mem _ (List.mem_cons_of_mem _ back))
    unfold DoublyLinked.inserted
    rw [prev_putPrev_of_ne (notB v outside),prev_putNext,alloc_prev_of_ne here]

end

end DoublyLinked
