import MyShell.Lib.DoublyLinked

/-! linked_list.c. The lists of the kernel (the ready queue, the pages in the order of their use
and all processes) are made of nodes on one heap, where nothing is freed. -/
namespace MyShell.Demand
open DoublyLinked

/-- `LINKED_LIST` -/
structure LinkedList (D : Type) where
  size : Int
  dummyHead : Nat
  dummyTail : Nat
  equal : D → D → Bool

/-- A list and the heap that its nodes are on. -/
structure ListMemory (D : Type) where
  heap : ObjectHeap (Node D)
  list : LinkedList D

/-- A store in the field `next` behind a pointer. There is no result for the null pointer or one to nothing. -/
def setNext {D : Type} (heap : ObjectHeap (Node D)) (p q : Option Nat) : Option (ObjectHeap (Node D)) := do
  let p ← p
  let _ ← heap.cell p
  pure (putNext heap p q)

def setPrev {D : Type} (heap : ObjectHeap (Node D)) (p q : Option Nat) : Option (ObjectHeap (Node D)) := do
  let p ← p
  let _ ← heap.cell p
  pure (putPrev heap p q)

/-- The two assignments with which `pop_head`, `pop_tail` and `remove_elem` take a node out. -/
def unlink {D : Type} (heap : ObjectHeap (Node D)) (toBeDeleted : Nat) : Option (ObjectHeap (Node D)) := do
  let node ← heap.cell toBeDeleted
  let heap ← setNext heap node.prev node.next
  let node ← heap.cell toBeDeleted
  setPrev heap node.next node.prev

namespace ListMemory
variable {D : Type}

/-- The memory of the two dummy nodes is as `malloc` returns it, but for what is set. -/
def listInit (equal : D → D → Bool) (headMemory tailMemory : Node D) (m : ListMemory D) : ListMemory D :=
  let dummyHead := m.heap.next
  let heap := m.heap.alloc headMemory
  let dummyTail := heap.next
  let heap := heap.alloc {tailMemory with next := none}
  let heap := putNext heap dummyHead (some dummyTail)
  let heap := putPrev heap dummyTail (some dummyHead)
  ⟨heap,⟨0,dummyHead,dummyTail,equal⟩⟩

def listClear (m : ListMemory D) : Option (ListMemory D) := do
  let heap ← setNext m.heap m.list.dummyHead m.list.dummyTail
  let heap ← setPrev heap m.list.dummyTail m.list.dummyHead
  pure ⟨heap,{m.list with size := 0}⟩

/-- All fields of the new node are set before one is read. -/
def addTail (data : D) (m : ListMemory D) : Option (ListMemory D) := do
  let tail ← m.heap.cell m.list.dummyTail
  let newNode := m.heap.next
  let heap := m.heap.alloc ⟨data,m.list.dummyTail,tail.prev⟩
  let heap ← setNext heap tail.prev newNode
  let heap ← setPrev heap m.list.dummyTail newNode
  pure ⟨heap,{m.list with size := m.list.size + 1}⟩

def addHead (data : D) (m : ListMemory D) : Option (ListMemory D) := do
  let head ← m.heap.cell m.list.dummyHead
  let newNode := m.heap.next
  let heap := m.heap.alloc ⟨data,head.next,m.list.dummyHead⟩
  let heap ← setPrev heap head.next newNode
  let heap ← setNext heap m.list.dummyHead newNode
  pure ⟨heap,{m.list with size := m.list.size + 1}⟩

/-- The end of the three functions that take a node out. -/
def delete (toBeDeleted : Nat) (m : ListMemory D) : Option (D × ListMemory D) := do
  let heap ← unlink m.heap toBeDeleted
  let node ← heap.cell toBeDeleted
  pure (node.data,⟨heap,{m.list with size := m.list.size - 1}⟩)

/-- Without a result where the process exits, as for a null pointer. -/
def popHead (m : ListMemory D) : Option (D × ListMemory D) :=
  if m.list.size ≤ 0 then none
  else do
    let toBeDeleted ← next m.heap m.list.dummyHead
    delete toBeDeleted m

def popTail (m : ListMemory D) : Option (D × ListMemory D) :=
  if m.list.size ≤ 0 then none
  else do
    let toBeDeleted ← prev m.heap m.list.dummyTail
    delete toBeDeleted m

/-- The loop of `get_node_by_value` from the node `curr` on. -/
def getNodeByValue (m : ListMemory D) (targetData : D) : Nat → Option Nat → Option (Option Nat)
  | 0, _ => none
  | _+1, none => some none
  | fuel+1, some curr => do
    let node ← m.heap.cell curr
    if m.list.equal targetData node.data then some (some curr) else getNodeByValue m targetData fuel node.next

/-- A search that does not come back to a node sees no more nodes than there are addresses. -/
def removeElem (dataToDel : D) (m : ListMemory D) : Option (D × ListMemory D) := do
  let head ← m.heap.cell m.list.dummyHead
  let found ← getNodeByValue m dataToDel m.heap.next head.next
  let toBeDeleted ← found
  delete toBeDeleted m

/-- The nodes from `dummy_head` on, and those from `dummy_tail` on backwards. -/
def forwards (m : ListMemory D) : Option (List Nat) :=
  follow m.heap Node.next m.list.dummyTail m.heap.next m.list.dummyHead

def backwards (m : ListMemory D) : Option (List Nat) :=
  follow m.heap Node.prev m.list.dummyHead m.heap.next m.list.dummyTail

end ListMemory

/-- What a list stands for. -/
structure Sequence (D : Type) where
  elems : List D
  equal : D → D → Bool

/-- The operations of linked_list.c that change a list. -/
inductive Operation (D : Type)
  | listInit (equal : D → D → Bool) (headMemory tailMemory : Node D)
  | listClear | addHead (data : D) | addTail (data : D) | popHead | popTail | removeElem (data : D)

/-- An operation, with the data it returns. -/
def Operation.exec {D : Type} : Operation D → ListMemory D → Option (Option D × ListMemory D)
  | listInit equal headMemory tailMemory, m => some (none,m.listInit equal headMemory tailMemory)
  | listClear, m => m.listClear.map fun m => (none,m)
  | addHead data, m => (m.addHead data).map fun m => (none,m)
  | addTail data, m => (m.addTail data).map fun m => (none,m)
  | popHead, m => m.popHead.map fun (data,m) => (some data,m)
  | popTail, m => m.popTail.map fun (data,m) => (some data,m)
  | removeElem data, m => (m.removeElem data).map fun (data,m) => (some data,m)

/-- Its counterpart on sequences. Only `list_init` may come first, there has to be an element
to pop and one that is equal to the one to remove. -/
def Operation.act {D : Type} : Operation D → Option (Sequence D) → Option (Option D × Sequence D)
  | listInit equal _ _, _ => some (none,⟨[],equal⟩)
  | listClear, some s => some (none,{s with elems := []})
  | addHead data, some s => some (none,{s with elems := data :: s.elems})
  | addTail data, some s => some (none,{s with elems := s.elems ++ [data]})
  | popHead, some s => s.elems.head?.map fun data => (some data,{s with elems := s.elems.tail})
  | popTail, some s => s.elems.getLast?.map fun data => (some data,{s with elems := s.elems.dropLast})
  | removeElem data, some s =>
    (s.elems.find? (s.equal data)).map fun found => (some found,{s with elems := s.elems.eraseP (s.equal data)})
  | _, none => none

/-- The lists of the kernel, which share the heap. -/
structure ListStore (ι D : Type) where
  heap : ObjectHeap (Node D)
  lists : ι → LinkedList D

def ListStore.memory {ι D : Type} (s : ListStore ι D) (i : ι) : ListMemory D := ⟨s.heap,s.lists i⟩

/-- Operations on the lists, each on one of them. -/
def ListStore.run {ι D : Type} [DecidableEq ι] :
    List (ι × Operation D) → ListStore ι D → Option (List (Option D) × ListStore ι D)
  | [], s => some ([],s)
  | (i,operation) :: operations, s => do
    let (result,m) ← operation.exec (s.memory i)
    let (results,s) ← run operations ⟨m.heap,Function.update s.lists i m.list⟩
    pure (result :: results,s)

/-- The same on sequences, none of which is there before `list_init`. -/
def runSequences {ι D : Type} [DecidableEq ι] :
    List (ι × Operation D) → (ι → Option (Sequence D)) → Option (List (Option D) × (ι → Option (Sequence D)))
  | [], held => some ([],held)
  | (i,operation) :: operations, held => do
    let (result,s) ← operation.act (held i)
    let (results,held) ← runSequences operations (Function.update held i (some s))
    pure (result :: results,held)

/-- Both ways through a list lead past the same nodes, and past no others. -/
def ListMemory.Shows {D : Type} (m : ListMemory D) (s : Sequence D) : Prop :=
  ∃ nodes, m.forwards = some nodes ∧ m.backwards = some nodes.reverse ∧ m.list.size = nodes.length ∧
    nodes.map (data m.heap) = s.elems.map some

/-- The nodes of a list with the two dummies. -/
def addresses {D : Type} (m : ListMemory D) (nodes : List Nat) : List Nat :=
  m.list.dummyHead :: (nodes ++ [m.list.dummyTail])

/-- A list that represents a sequence, by the addresses of its nodes. -/
structure Represents {D : Type} (m : ListMemory D) (nodes : List Nat) (s : Sequence D) : Prop where
  linked : Linked m.heap (addresses m nodes)
  distinct : (addresses m nodes).Nodup
  stored : nodes.map (data m.heap) = s.elems.map some
  size : m.list.size = nodes.length
  equal : m.list.equal = s.equal

/-- Nothing but the nodes `own` of the list and new ones is touched, and has become its own. -/
structure Changed {D : Type} (m m' : ListMemory D) (own own' : List Nat) : Prop where
  same : ∀ p, p ∉ own → p < m.heap.next → m'.heap.cell p = m.heap.cell p
  more : m.heap.next ≤ m'.heap.next
  added : ∀ p ∈ own', p ∈ own ∨ m.heap.next ≤ p

/-- Lists that represent sequences and have no node in common. -/
structure Kept {ι D : Type} (s : ListStore ι D) (held : ι → Option (Sequence D)) (nodes : ι → List Nat) : Prop where
  represents : ∀ i q, held i = some q → Represents (s.memory i) (nodes i) q
  apart : ∀ i j, i ≠ j → (held i).isSome → (held j).isSome →
    List.Disjoint (addresses (s.memory i) (nodes i)) (addresses (s.memory j) (nodes j))

section
variable {D : Type} {h : ObjectHeap (Node D)} {m : ListMemory D} {nodes : List Nat} {front back : List D}
  {s : Sequence D} {equal : D → D → Bool} {d : D} {p : Nat} {q : Option Nat}

theorem setNext_of_cell (allocated : h.cell p ≠ none) : setNext h (some p) q = some (putNext h p q) := by
  obtain ⟨node,cell⟩ := Option.ne_none_iff_exists'.mp allocated
  unfold setNext
  simp only [Option.bind_eq_bind,Option.bind_some,cell]
  rfl

theorem setPrev_of_cell (allocated : h.cell p ≠ none) : setPrev h (some p) q = some (putPrev h p q) := by
  obtain ⟨node,cell⟩ := Option.ne_none_iff_exists'.mp allocated
  unfold setPrev
  simp only [Option.bind_eq_bind,Option.bind_some,cell]
  rfl

/-- The last of some nodes and the first. -/
theorem cons_eq_concat (a : Nat) (l : List Nat) : ∃ before last, a :: l = before ++ [last] :=
  ⟨_,_,(List.dropLast_concat_getLast (List.cons_ne_nil a l)).symm⟩

theorem concat_eq_cons (l : List Nat) (b : Nat) : ∃ first after, l ++ [b] = first :: after := by
  cases l with
  | nil => exact ⟨b,[],rfl⟩
  | cons c l => exact ⟨c,l ++ [b],rfl⟩

theorem Represents.allocated (represents : Represents m nodes s) (member : p ∈ addresses m nodes) :
    m.heap.cell p ≠ none := Linked.allocated represents.linked p member

theorem Represents.below (represents : Represents m nodes s) (member : p ∈ addresses m nodes) : p < m.heap.next := by
  obtain ⟨node,cell⟩ := Option.ne_none_iff_exists'.mp (represents.allocated member)
  exact m.heap.lt_next p node cell

/-- The node that an element is stored in. -/
theorem Represents.split (represents : Represents m nodes ⟨front ++ d :: back,equal⟩) :
    ∃ l x r, nodes = l ++ x :: r ∧ l.map (data m.heap) = front.map some ∧ data m.heap x = some d ∧
      r.map (data m.heap) = back.map some := by
  have stored := represents.stored
  rw [List.map_append,List.map_cons] at stored
  obtain ⟨l,rest,rfl,left,right⟩ := List.map_eq_append_iff.mp stored
  obtain ⟨x,r,rfl,here,right⟩ := List.map_eq_cons_iff.mp right
  exact ⟨l,x,r,rfl,left,here,right⟩

/-- A node between two others goes out. -/
theorem unlink_spec {before after : List Nat} {a b x : Nat} (linked : Linked h (before ++ a :: ([x] ++ b :: after)))
    (distinct : (before ++ a :: ([x] ++ b :: after)).Nodup) : unlink h x = some (joined h a b) := by
  obtain ⟨-,link,rest⟩ := List.isChain_append_cons_cons.mp linked
  obtain ⟨link',-⟩ := List.isChain_cons_cons.mp rest
  obtain ⟨aB,notA,notB⟩ := nodup_outside distinct
  have aX : x ≠ a := by
    rintro rfl
    simp only [List.nodup_append,List.nodup_cons,List.mem_append,List.mem_cons,true_or,not_true,false_and,and_false] at distinct
  obtain ⟨node,cell,points⟩ := Option.bind_eq_some_iff.mp link.2
  have onward : node.next = some b := by
    have points := link'.1
    unfold next at points
    rw [cell] at points
    exact points
  have cell' : (putNext h a (some b)).cell x = some node := (cell_putNext_of_ne aX).trans cell
  unfold unlink
  simp only [Option.bind_eq_bind,Option.bind_some,cell,points,onward,setNext_of_cell (allocated_of_next link.1),cell']
  refine setPrev_of_cell ?_
  rw [cell_putNext_of_ne aB.symm]
  exact allocated_of_prev link'.2

theorem fresh_of_cell {node : Node D} (there : h.cell p ≠ none) : (h.alloc node).cell p ≠ none := by
  rw [ObjectHeap.alloc_cell]
  split
  · exact Option.some_ne_none _
  · exact there

/-- Both parts of the nodes with the dummies behind and before them. -/
theorem addresses_append (m : ListMemory D) {l r before after : List Nat} {a b : Nat} (middle : List Nat)
    (left : m.list.dummyHead :: l = before ++ [a]) (right : r ++ [m.list.dummyTail] = b :: after) :
    addresses m (l ++ (middle ++ r)) = before ++ a :: (middle ++ b :: after) := by
  unfold addresses
  rw [List.append_assoc,List.append_assoc,right,← List.cons_append,left,List.append_assoc,List.singleton_append]

theorem Represents.delete {l r : List Nat} {x : Nat}
    (represents : Represents m (l ++ x :: r) ⟨front ++ d :: back,equal⟩) (left : l.map (data m.heap) = front.map some)
    (here : data m.heap x = some d) (right : r.map (data m.heap) = back.map some) :
    ∃ m', m.delete x = some (d,m') ∧ Represents m' (l ++ r) ⟨front ++ back,equal⟩ ∧
      Changed m m' (addresses m (l ++ x :: r)) (addresses m' (l ++ r)) := by
  obtain ⟨before,a,head⟩ := cons_eq_concat m.list.dummyHead l
  obtain ⟨b,after,tail⟩ := concat_eq_cons r m.list.dummyTail
  have shape : addresses m (l ++ x :: r) = before ++ a :: ([x] ++ b :: after) := addresses_append m [x] head tail
  have shape' : addresses ⟨joined m.heap a b,{m.list with size := m.list.size - 1}⟩ (l ++ r) = before ++ a :: b :: after :=
    addresses_append ⟨joined m.heap a b,{m.list with size := m.list.size - 1}⟩ [] head tail
  have linked := represents.linked
  have distinct := represents.distinct
  rw [shape] at linked distinct
  have same : data (joined m.heap a b) = data m.heap := funext joined_data
  refine ⟨⟨joined m.heap a b,{m.list with size := m.list.size - 1}⟩,?_,⟨?_,?_,?_,?_,represents.equal⟩,⟨?_,Nat.le_refl _,?_⟩⟩
  · obtain ⟨node,cell,stored⟩ := Option.map_eq_some_iff.mp ((congrFun same x).trans here)
    unfold ListMemory.delete
    simp only [Option.bind_eq_bind,unlink_spec linked distinct,Option.bind_some,cell]
    rw [← stored]
    rfl
  · rw [shape']
    exact linked.joined distinct
  · rw [shape']
    exact distinct.sublist (List.Sublist.append_left (List.Sublist.cons_cons _ (List.sublist_append_right [x] _)) before)
  · simp only [same,List.map_append,left,right]
  · have size := represents.size
    simp only [List.length_append,List.length_cons] at size ⊢
    omega
  · intro p outside _
    rw [shape] at outside
    refine joined_cell (fun isA => outside ?_) fun isB => outside ?_
    · rw [isA]
      exact List.mem_append_right _ List.mem_cons_self
    · rw [isB]
      exact List.mem_append_right _ (List.mem_cons_of_mem _ (List.mem_append_right _ List.mem_cons_self))
  · intro p member
    rw [shape'] at member
    rw [shape]
    refine Or.inl ?_
    rcases List.mem_append.mp member with front | back
    · exact List.mem_append_left _ front
    · refine List.mem_append_right _ ?_
      rcases List.mem_cons.mp back with rfl | back
      · exact List.mem_cons_self
      · exact List.mem_cons_of_mem _ (List.mem_append_right _ back)

theorem Represents.insert {l r before after : List Nat} {a b : Nat} (represents : Represents m (l ++ r) ⟨front ++ back,equal⟩)
    (left : l.map (data m.heap) = front.map some) (right : r.map (data m.heap) = back.map some)
    (head : m.list.dummyHead :: l = before ++ [a]) (tail : r ++ [m.list.dummyTail] = b :: after) (d : D) :
    Represents ⟨inserted m.heap a b d,{m.list with size := m.list.size + 1}⟩ (l ++ m.heap.next :: r)
        ⟨front ++ d :: back,equal⟩ ∧
      Changed m ⟨inserted m.heap a b d,{m.list with size := m.list.size + 1}⟩ (addresses m (l ++ r))
        (addresses ⟨inserted m.heap a b d,{m.list with size := m.list.size + 1}⟩ (l ++ m.heap.next :: r)) := by
  have shape : addresses m (l ++ r) = before ++ a :: b :: after := addresses_append m [] head tail
  have shape' : addresses ⟨inserted m.heap a b d,{m.list with size := m.list.size + 1}⟩ (l ++ m.heap.next :: r) =
      before ++ a :: m.heap.next :: b :: after :=
    addresses_append ⟨inserted m.heap a b d,{m.list with size := m.list.size + 1}⟩ [m.heap.next] head tail
  have linked := represents.linked
  have distinct := represents.distinct
  have old (p : Nat) (member : p ∈ addresses m (l ++ r)) : p ≠ m.heap.next := (represents.below member).ne
  rw [shape] at linked distinct
  have kept (part : List Nat) (inside : ∀ p ∈ part, p ∈ l ++ r) :
      part.map (data (inserted m.heap a b d)) = part.map (data m.heap) := by
    refine List.map_congr_left fun p member => ?_
    rw [inserted_data,if_neg (old p (List.mem_cons_of_mem _ (List.mem_append_left _ (inside p member))))]
  refine ⟨⟨?_,?_,?_,?_,represents.equal⟩,⟨?_,Nat.le_succ _,?_⟩⟩
  · rw [shape']
    exact linked.inserted distinct (shape ▸ old)
  · rw [shape']
    have new : m.heap.next ∉ before ++ a :: b :: after := fun member => old _ (shape ▸ member) rfl
    have order : (before ++ a :: m.heap.next :: b :: after).Perm (m.heap.next :: (before ++ a :: b :: after)) := by
      have moved : (before ++ [a] ++ m.heap.next :: (b :: after)).Perm (m.heap.next :: (before ++ [a] ++ (b :: after))) :=
        List.perm_middle
      simpa only [List.append_assoc,List.singleton_append] using moved
    exact order.nodup_iff.mpr (List.nodup_cons.mpr ⟨new,distinct⟩)
  · have here : data (inserted m.heap a b d) m.heap.next = some d := (inserted_data _).trans (if_pos rfl)
    simp only [List.map_append,List.map_cons,here]
    rw [kept l (fun p => List.mem_append_left _),kept r (fun p => List.mem_append_right _),left,right]
  · have size := represents.size
    simp only [List.length_append,List.length_cons] at size ⊢
    omega
  · intro p outside below
    rw [shape] at outside
    refine inserted_cell (fun isA => outside ?_) (fun isB => outside ?_) below.ne
    · rw [isA]
      exact List.mem_append_right _ List.mem_cons_self
    · rw [isB]
      exact List.mem_append_right _ (List.mem_cons_of_mem _ List.mem_cons_self)
  · intro p member
    rw [shape'] at member
    rw [shape]
    rcases List.mem_append.mp member with front | back
    · exact Or.inl (List.mem_append_left _ front)
    · rcases List.mem_cons.mp back with rfl | back
      · exact Or.inl (List.mem_append_right _ List.mem_cons_self)
      · rcases List.mem_cons.mp back with rfl | back
        · exact Or.inr (Nat.le_refl _)
        · exact Or.inl (List.mem_append_right _ (List.mem_cons_of_mem _ back))

theorem Represents.addTail (represents : Represents m nodes s) (d : D) :
    ∃ m' nodes', m.addTail d = some m' ∧ Represents m' nodes' {s with elems := s.elems ++ [d]} ∧ Changed m m' (addresses m nodes) (addresses m' nodes') := by
  obtain ⟨before,a,head⟩ := cons_eq_concat m.list.dummyHead nodes
  have chain : before ++ a :: [m.list.dummyTail] = addresses m nodes := by
    unfold addresses
    rw [← List.cons_append,head,List.append_assoc,List.singleton_append]
  have linked := represents.linked
  rw [← chain] at linked
  have link := Linked.link linked
  obtain ⟨tail,cell,points⟩ := Option.bind_eq_some_iff.mp link.2
  have member : a ∈ addresses m nodes := chain ▸ List.mem_append_right _ List.mem_cons_self
  have memberTail : m.list.dummyTail ∈ addresses m nodes :=
    chain ▸ List.mem_append_right _ (List.mem_cons_of_mem _ List.mem_cons_self)
  have distinct : (before ++ a :: ([] ++ m.list.dummyTail :: [])).Nodup := chain ▸ represents.distinct
  have apart := (nodup_outside distinct).1
  have whole : Represents m (nodes ++ []) ⟨s.elems ++ [],s.equal⟩ := by
    rw [List.append_nil,List.append_nil]
    exact represents
  obtain ⟨after,changed⟩ := whole.insert represents.stored rfl head rfl d
  rw [List.append_nil] at changed
  refine ⟨_,_,?_,after,changed⟩
  unfold ListMemory.addTail inserted
  simp only [Option.bind_eq_bind,Option.bind_some,cell,points,setNext_of_cell (fresh_of_cell (represents.allocated member))]
  rw [setPrev_of_cell]
  · rfl
  · rw [cell_putNext_of_ne apart.symm]
    exact fresh_of_cell (represents.allocated memberTail)

theorem Represents.addHead (represents : Represents m nodes s) (d : D) :
    ∃ m' nodes', m.addHead d = some m' ∧ Represents m' nodes' {s with elems := d :: s.elems} ∧ Changed m m' (addresses m nodes) (addresses m' nodes') := by
  obtain ⟨b,after,tail⟩ := concat_eq_cons nodes m.list.dummyTail
  have chain : addresses m nodes = [] ++ m.list.dummyHead :: b :: after := by
    unfold addresses
    rw [tail,List.nil_append]
  have linked := represents.linked
  rw [chain] at linked
  have link := Linked.link linked
  obtain ⟨head,cell,points⟩ := Option.bind_eq_some_iff.mp link.1
  have member : m.list.dummyHead ∈ addresses m nodes := List.mem_cons_self
  have memberB : b ∈ addresses m nodes := chain ▸ List.mem_cons_of_mem _ List.mem_cons_self
  have distinct : ([] ++ m.list.dummyHead :: ([] ++ b :: after)).Nodup := chain ▸ represents.distinct
  have apart := (nodup_outside distinct).1
  have whole : Represents m ([] ++ nodes) ⟨[] ++ s.elems,s.equal⟩ := represents
  have lead : [m.list.dummyHead] = [] ++ [m.list.dummyHead] := rfl
  obtain ⟨done,changed⟩ := whole.insert rfl represents.stored lead tail d
  refine ⟨_,_,?_,done,changed⟩
  unfold ListMemory.addHead inserted
  simp only [Option.bind_eq_bind,Option.bind_some,cell,points,setPrev_of_cell (fresh_of_cell (represents.allocated memberB))]
  rw [setNext_of_cell]
  · rw [← putNext_putPrev_comm]
    rfl
  · rw [cell_putPrev_of_ne apart]
    exact fresh_of_cell (represents.allocated member)

theorem Represents.listClear (represents : Represents m nodes s) :
    ∃ m', m.listClear = some m' ∧ Represents m' [] {s with elems := []} ∧
      Changed m m' (addresses m nodes) (addresses m' []) := by
  have linked : Linked m.heap ([] ++ m.list.dummyHead :: (nodes ++ m.list.dummyTail :: [])) := represents.linked
  have distinct : ([] ++ m.list.dummyHead :: (nodes ++ m.list.dummyTail :: [])).Nodup := represents.distinct
  have apart := (nodup_outside distinct).1
  have memberTail : m.list.dummyTail ∈ addresses m nodes :=
    List.mem_cons_of_mem _ (List.mem_append_right _ List.mem_cons_self)
  refine ⟨⟨joined m.heap m.list.dummyHead m.list.dummyTail,{m.list with size := 0}⟩,?_,
    ⟨linked.joined distinct,?_,rfl,rfl,represents.equal⟩,⟨?_,Nat.le_refl _,?_⟩⟩
  · unfold ListMemory.listClear joined
    simp only [Option.bind_eq_bind,setNext_of_cell (represents.allocated List.mem_cons_self),Option.bind_some]
    rw [setPrev_of_cell]
    · rfl
    · rw [cell_putNext_of_ne apart.symm]
      exact represents.allocated memberTail
  · exact List.nodup_cons.mpr ⟨fun member => apart (List.mem_singleton.mp member),List.pairwise_singleton _ _⟩
  · intro p outside _
    refine joined_cell (fun isHead => outside ?_) fun isTail => outside ?_
    · rw [isHead]
      exact List.mem_cons_self
    · rw [isTail]
      exact memberTail
  · intro p member
    rcases List.mem_cons.mp member with rfl | last
    · exact Or.inl List.mem_cons_self
    · rw [List.mem_singleton.mp last]
      exact Or.inl memberTail

theorem listInit_represents (m : ListMemory D) (own : List Nat) (equal : D → D → Bool) (headMemory tailMemory : Node D) :
    Represents (m.listInit equal headMemory tailMemory) [] ⟨[],equal⟩ ∧
      Changed m (m.listInit equal headMemory tailMemory) own (addresses (m.listInit equal headMemory tailMemory) []) := by
  have apart : m.heap.next ≠ m.heap.next + 1 := Nat.ne_of_lt (Nat.lt_succ_self _)
  have thereHead : ((m.heap.alloc headMemory).alloc {tailMemory with next := none}).cell m.heap.next ≠ none := by
    refine fresh_of_cell ?_
    rw [ObjectHeap.alloc_cell_next]
    exact Option.some_ne_none _
  have thereTail : ((m.heap.alloc headMemory).alloc {tailMemory with next := none}).cell (m.heap.next + 1) ≠ none := by
    refine Option.ne_none_iff_exists'.mpr ⟨_,ObjectHeap.alloc_cell_next (m.heap.alloc headMemory) _⟩
  refine ⟨⟨List.isChain_pair.mpr ⟨?_,?_⟩,?_,rfl,rfl,rfl⟩,⟨?_,?_,?_⟩⟩
  · unfold ListMemory.listInit
    rw [next_putPrev,next_putNext_self thereHead]
  · unfold ListMemory.listInit
    rw [prev_putPrev_self]
    rw [cell_putNext_of_ne]
    · exact thereTail
    · exact apart.symm
  · exact List.nodup_cons.mpr ⟨fun member => apart (List.mem_singleton.mp member),List.pairwise_singleton _ _⟩
  · intro p _ below
    change (putPrev (putNext ((m.heap.alloc headMemory).alloc _) m.heap.next _) (m.heap.next + 1) _).cell p = _
    have other : p ≠ m.heap.next + 1 := (Nat.lt_succ_of_lt below).ne
    rw [cell_putPrev_of_ne other,cell_putNext_of_ne below.ne,ObjectHeap.alloc_cell,ObjectHeap.alloc_next,if_neg other,
      ObjectHeap.alloc_cell,if_neg below.ne]
  · exact Nat.le_add_right m.heap.next 2
  · intro p member
    rcases List.mem_cons.mp member with rfl | last
    · exact Or.inr (Nat.le_refl _)
    · rw [List.mem_singleton.mp last]
      exact Or.inr (Nat.le_succ _)

theorem Represents.positive (represents : Represents m nodes s) (some : s.elems ≠ []) : ¬m.list.size ≤ 0 := by
  have counts := congrArg List.length represents.stored
  rw [List.length_map,List.length_map] at counts
  have long := List.length_pos_iff.mpr some
  have size := represents.size
  omega

theorem Represents.popHead (represents : Represents m nodes ⟨d :: back,equal⟩) :
    ∃ m' nodes', m.popHead = some (d,m') ∧ Represents m' nodes' ⟨back,equal⟩ ∧ Changed m m' (addresses m nodes) (addresses m' nodes') := by
  have whole : Represents m nodes ⟨[] ++ d :: back,equal⟩ := represents
  obtain ⟨l,x,r,rfl,left,here,right⟩ := whole.split
  obtain rfl : l = [] := List.map_eq_nil_iff.mp left
  obtain ⟨m',run,after,changed⟩ := whole.delete left here right
  have link := (List.isChain_cons_cons.mp represents.linked).1
  refine ⟨m',_,?_,after,changed⟩
  unfold ListMemory.popHead
  rw [if_neg (represents.positive (List.cons_ne_nil _ _)),link.1]
  exact run

theorem Represents.popTail (represents : Represents m nodes ⟨front ++ [d],equal⟩) :
    ∃ m' nodes', m.popTail = some (d,m') ∧ Represents m' nodes' ⟨front,equal⟩ ∧ Changed m m' (addresses m nodes) (addresses m' nodes') := by
  obtain ⟨l,x,r,rfl,left,here,right⟩ := represents.split
  obtain rfl : r = [] := List.map_eq_nil_iff.mp right
  obtain ⟨m',run,after,changed⟩ := represents.delete left here right
  have chain : addresses m (l ++ [x]) = m.list.dummyHead :: l ++ x :: [m.list.dummyTail] := by
    unfold addresses
    rw [List.append_assoc,List.singleton_append,List.cons_append]
  have linked := represents.linked
  rw [chain] at linked
  rw [List.append_nil front] at after
  refine ⟨m',_,?_,after,changed⟩
  unfold ListMemory.popTail
  rw [if_neg (represents.positive (List.append_ne_nil_of_right_ne_nil _ (List.cons_ne_nil _ _))),linked.link.2]
  exact run

/-- The search goes past the nodes whose data is not equal to the target. -/
theorem getNodeByValue_spec {l after : List Nat} {c x fuel : Nat} {target : D} (linked : Linked m.heap (c :: (l ++ x :: after)))
    (stored : l.map (data m.heap) = front.map some) (here : data m.heap x = some d)
    (others : ∀ e ∈ front, m.list.equal target e = false) (equal : m.list.equal target d = true) (enough : l.length < fuel) :
    m.getNodeByValue target fuel (next m.heap c) = some (some x) := by
  induction l generalizing c front fuel with
  | nil =>
    match fuel, enough with
    | fuel+1, _ =>
      have link := (List.isChain_cons_cons.mp linked).1
      obtain ⟨node,cell,rfl⟩ := Option.map_eq_some_iff.mp here
      rw [link.1,ListMemory.getNodeByValue]
      simp only [Option.bind_eq_bind,cell,Option.bind_some,equal,if_true]
  | cons y l ih =>
    match fuel, enough with
    | fuel+1, enough =>
      obtain ⟨link,rest⟩ := List.isChain_cons_cons.mp linked
      rw [List.map_cons] at stored
      obtain ⟨e,front,rfl,first,later⟩ := List.map_eq_cons_iff.mp stored.symm
      obtain ⟨node,cell,rfl⟩ := Option.map_eq_some_iff.mp first.symm
      have onward := ih rest later.symm (fun e member => others e (List.mem_cons_of_mem _ member)) (Nat.lt_of_succ_lt_succ enough)
      unfold next at onward
      rw [cell,Option.bind_some] at onward
      rw [link.1,ListMemory.getNodeByValue]
      simp only [Option.bind_eq_bind,cell,Option.bind_some,others _ List.mem_cons_self,Bool.false_eq_true,if_false,onward]

theorem Represents.removeElem {target : D} (represents : Represents m nodes ⟨front ++ d :: back,equal⟩)
    (others : ∀ e ∈ front, equal target e = false) (same : equal target d = true) :
    ∃ m' nodes', m.removeElem target = some (d,m') ∧ Represents m' nodes' ⟨front ++ back,equal⟩ ∧
      Changed m m' (addresses m nodes) (addresses m' nodes') := by
  obtain ⟨l,x,r,rfl,left,here,right⟩ := represents.split
  obtain ⟨m',run,after,changed⟩ := represents.delete left here right
  have length := represents.linked.length_lt represents.distinct
  rw [List.length_append] at length
  have linked : Linked m.heap (m.list.dummyHead :: (l ++ x :: (r ++ [m.list.dummyTail]))) := by
    have linked := represents.linked
    unfold addresses at linked
    rwa [List.append_assoc,List.cons_append] at linked
  have equals : m.list.equal = equal := represents.equal
  have found := getNodeByValue_spec linked left here (equals ▸ others) (equals ▸ same) (Nat.lt_of_le_of_lt (Nat.le_add_right _ _) length)
  obtain ⟨head,cell⟩ := Option.ne_none_iff_exists'.mp (represents.allocated List.mem_cons_self)
  unfold next at found
  rw [cell,Option.bind_some] at found
  refine ⟨m',_,?_,after,changed⟩
  unfold ListMemory.removeElem
  simp only [Option.bind_eq_bind,cell,Option.bind_some,found,run]

/-- Each operation acts on the list as its counterpart does on the sequence. -/
theorem exec_spec (operation : Operation D) {held : Option (Sequence D)} {result : Option D}
    (represents : ∀ s, held = some s → Represents m nodes s) (allowed : operation.act held = some (result,s)) :
    ∃ m' nodes', operation.exec m = some (result,m') ∧ Represents m' nodes' s ∧
      Changed m m' (if held.isSome then addresses m nodes else []) (addresses m' nodes') := by
  cases held with
  | none =>
    cases operation with
    | listInit equal headMemory tailMemory =>
      obtain ⟨rfl,rfl⟩ := Prod.mk.inj (Option.some.inj allowed)
      exact ⟨_,[],rfl,listInit_represents m [] equal headMemory tailMemory⟩
    | _ => exact absurd allowed.symm (Option.some_ne_none _)
  | some before =>
    have represents := represents before rfl
    cases operation with
    | listInit equal headMemory tailMemory =>
      obtain ⟨rfl,rfl⟩ := Prod.mk.inj (Option.some.inj allowed)
      exact ⟨_,[],rfl,listInit_represents m (addresses m nodes) equal headMemory tailMemory⟩
    | listClear =>
      obtain ⟨rfl,rfl⟩ := Prod.mk.inj (Option.some.inj allowed)
      obtain ⟨m',run,after⟩ := represents.listClear
      exact ⟨m',[],by rw [Operation.exec,run]; rfl,after⟩
    | addHead data =>
      obtain ⟨rfl,rfl⟩ := Prod.mk.inj (Option.some.inj allowed)
      obtain ⟨m',nodes',run,after⟩ := represents.addHead data
      exact ⟨m',nodes',by rw [Operation.exec,run]; rfl,after⟩
    | addTail data =>
      obtain ⟨rfl,rfl⟩ := Prod.mk.inj (Option.some.inj allowed)
      obtain ⟨m',nodes',run,after⟩ := represents.addTail data
      exact ⟨m',nodes',by rw [Operation.exec,run]; rfl,after⟩
    | popHead =>
      obtain ⟨d,first,same⟩ := Option.map_eq_some_iff.mp allowed
      obtain ⟨rfl,rfl⟩ := Prod.mk.inj same
      obtain ⟨back,split⟩ := List.head?_eq_some_iff.mp first
      have whole : Represents m nodes ⟨d :: back,before.equal⟩ := split ▸ represents
      obtain ⟨m',nodes',run,after,changed⟩ := whole.popHead
      refine ⟨m',nodes',by rw [Operation.exec,run]; rfl,?_,changed⟩
      rw [split]
      exact after
    | popTail =>
      obtain ⟨d,last,same⟩ := Option.map_eq_some_iff.mp allowed
      obtain ⟨rfl,rfl⟩ := Prod.mk.inj same
      obtain ⟨front,split⟩ := List.getLast?_eq_some_iff.mp last
      have whole : Represents m nodes ⟨front ++ [d],before.equal⟩ := split ▸ represents
      obtain ⟨m',nodes',run,after,changed⟩ := whole.popTail
      refine ⟨m',nodes',by rw [Operation.exec,run]; rfl,?_,changed⟩
      rw [split,List.dropLast_concat]
      exact after
    | removeElem target =>
      obtain ⟨d,found,same⟩ := Option.map_eq_some_iff.mp allowed
      obtain ⟨rfl,rfl⟩ := Prod.mk.inj same
      obtain ⟨equal,front,back,split,others⟩ := List.find?_eq_some_iff_append.mp found
      have others : ∀ e ∈ front, before.equal target e = false := fun e member => by simpa using others e member
      have whole : Represents m nodes ⟨front ++ d :: back,before.equal⟩ := split ▸ represents
      obtain ⟨m',nodes',run,after,changed⟩ := whole.removeElem others equal
      refine ⟨m',nodes',by rw [Operation.exec,run]; rfl,?_,changed⟩
      rw [split,List.eraseP_append_right _ fun e member => Bool.eq_false_iff.mp (others e member),
        List.eraseP_cons_of_pos equal]
      exact after

end

section
variable {ι D : Type} [DecidableEq ι] {store : ListStore ι D} {held held' : ι → Option (Sequence D)} {nodes : ι → List Nat}
  {i : ι} {s : Sequence D} {result : Option D} {operations : List (ι × Operation D)} {results : List (Option D)}

/-- A list whose nodes stay as they are represents what it did. -/
theorem Represents.congr {m m' : ListMemory D} {nodes : List Nat} (represents : Represents m nodes s)
    (list : m'.list = m.list) (same : ∀ p ∈ addresses m nodes, m'.heap.cell p = m.heap.cell p) : Represents m' nodes s := by
  obtain ⟨heap',list'⟩ := m'
  obtain rfl : list' = m.list := list
  refine ⟨represents.linked.congr same,represents.distinct,?_,represents.size,represents.equal⟩
  rw [← represents.stored]
  refine List.map_congr_left fun p member => ?_
  exact congrArg (Option.map Node.data) (same p (List.mem_cons_of_mem _ (List.mem_append_left _ member)))

theorem memory_update (h : ObjectHeap (Node D)) (lists : ι → LinkedList D) (i : ι) (list : LinkedList D) :
    (ListStore.mk h (Function.update lists i list)).memory i = ⟨h,list⟩ :=
  congrArg (ListMemory.mk h) (Function.update_self i list lists)

theorem memory_update_of_ne (h : ObjectHeap (Node D)) (lists : ι → LinkedList D) (list : LinkedList D) {j : ι} (ne : j ≠ i) :
    (ListStore.mk h (Function.update lists i list)).memory j = ⟨h,lists j⟩ :=
  congrArg (ListMemory.mk h) (Function.update_of_ne ne list lists)

/-- An operation on one list leaves the others. -/
theorem Kept.step (kept : Kept store held nodes) (operation : Operation D)
    (allowed : operation.act (held i) = some (result,s)) :
    ∃ m nodes', operation.exec (store.memory i) = some (result,m) ∧
      Kept ⟨m.heap,Function.update store.lists i m.list⟩ (Function.update held i (some s)) nodes' := by
  obtain ⟨m,own,run,represents,changed⟩ := exec_spec operation (kept.represents i) allowed
  -- the nodes of another list are old ones, and none of them belonged to the list `i`
  have others (j : ι) (ne : j ≠ i) (q : Sequence D) (holds : held j = some q) :
      ∀ p ∈ addresses (store.memory j) (nodes j), p < store.heap.next ∧
        p ∉ (if (held i).isSome then addresses (store.memory i) (nodes i) else []) := by
    refine fun p member => ⟨(kept.represents j q holds).below member,fun inside => ?_⟩
    split at inside
    · rename_i some
      exact kept.apart j i ne (holds ▸ rfl) some member inside
    · exact List.not_mem_nil inside
  have stays (j : ι) (ne : j ≠ i) (q : Sequence D) (holds : held j = some q) :
      Represents ⟨m.heap,store.lists j⟩ (nodes j) q :=
    (kept.represents j q holds).congr rfl fun p member =>
      changed.same p (others j ne q holds p member).2 (others j ne q holds p member).1
  have disjoint (j : ι) (ne : j ≠ i) (q : Sequence D) (holds : held j = some q) :
      List.Disjoint (addresses m own) (addresses (store.memory j) (nodes j)) := by
    intro p mine theirs
    obtain ⟨below,outside⟩ := others j ne q holds p theirs
    rcases changed.added p mine with inside | above
    · exact outside inside
    · exact absurd below (Nat.not_lt_of_le above)
  refine ⟨m,Function.update nodes i own,run,fun j q holds => ?_,fun j k ne someJ someK => ?_⟩
  · by_cases same : j = i
    · subst same
      rw [Function.update_self] at holds ⊢
      rw [memory_update]
      exact Option.some.inj holds ▸ represents
    · rw [Function.update_of_ne same] at holds ⊢
      rw [memory_update_of_ne _ _ _ same]
      exact stays j same q holds
  · by_cases isJ : j = i
    · subst isJ
      have ne' : k ≠ j := Ne.symm ne
      rw [Function.update_of_ne ne'] at someK ⊢
      obtain ⟨q,holds⟩ := Option.isSome_iff_exists.mp someK
      rw [memory_update,memory_update_of_ne _ _ _ ne',Function.update_self]
      exact disjoint k ne' q holds
    · rw [Function.update_of_ne isJ] at someJ ⊢
      obtain ⟨q,holds⟩ := Option.isSome_iff_exists.mp someJ
      rw [memory_update_of_ne _ _ _ isJ]
      by_cases isK : k = i
      · subst isK
        rw [memory_update,Function.update_self]
        exact fun p theirs mine => disjoint j isJ q holds mine theirs
      · rw [Function.update_of_ne isK] at someK ⊢
        rw [memory_update_of_ne _ _ _ isK]
        exact kept.apart j k ne someJ someK

theorem Kept.run (kept : Kept store held nodes) (allowed : runSequences operations held = some (results,held')) :
    ∃ after nodes', store.run operations = some (results,after) ∧ Kept after held' nodes' := by
  induction operations generalizing store held nodes results with
  | nil =>
    obtain ⟨rfl,rfl⟩ := Prod.mk.inj (Option.some.inj allowed)
    exact ⟨store,nodes,rfl,kept⟩
  | cons o operations ih =>
    obtain ⟨i,operation⟩ := o
    obtain ⟨⟨result,s⟩,act,rest⟩ := Option.bind_eq_some_iff.mp allowed
    obtain ⟨⟨later,final⟩,others,same⟩ := Option.bind_eq_some_iff.mp rest
    obtain ⟨rfl,rfl⟩ := Prod.mk.inj (Option.some.inj same)
    obtain ⟨m,nodes',exec,kept'⟩ := kept.step operation act
    obtain ⟨after,nodesLast,run,ended⟩ := ih kept' others
    refine ⟨after,nodesLast,?_,ended⟩
    rw [ListStore.run]
    simp only [Option.bind_eq_bind,exec,Option.bind_some,run]
    rfl

theorem Represents.shows {m : ListMemory D} {nodes : List Nat} (represents : Represents m nodes s) : m.Shows s := by
  have length := represents.linked.length_lt represents.distinct
  have distinct := List.nodup_cons.mp represents.distinct
  have apart := (List.nodup_append.mp distinct.2).2.2
  refine ⟨nodes,represents.linked.forwards (fun member => ?_) length,represents.linked.backwards (fun member => ?_) length,
    represents.size,represents.stored⟩
  · exact apart _ member _ List.mem_cons_self rfl
  · exact distinct.1 (List.mem_append_left _ member)

/-- Whatever operations sequences allow, the lists do the same, and show these sequences afterwards. -/
theorem lists_are_sequences (store : ListStore ι D) (operations : List (ι × Operation D)) (results : List (Option D))
    (held : ι → Option (Sequence D)) (allowed : runSequences operations (fun _ => none) = some (results,held)) :
    ∃ after, store.run operations = some (results,after) ∧ ∀ i s, held i = some s → (after.memory i).Shows s := by
  have start : Kept store (fun _ => none) fun _ => [] :=
    ⟨fun _ _ holds => absurd holds.symm (Option.some_ne_none _),fun _ _ _ some => absurd some Bool.false_ne_true⟩
  obtain ⟨after,nodes,run,kept⟩ := start.run allowed
  exact ⟨after,run,fun i s holds => (kept.represents i s holds).shows⟩

/-- Operations on two lists. An element is taken out of the middle of the first one. -/
def twoLists : List (Bool × Operation Nat) :=
  [(true,.listInit (· == ·) ⟨0,none,none⟩ ⟨0,none,none⟩),(true,.addTail 5),(false,.listInit (· == ·) ⟨0,none,none⟩ ⟨0,none,none⟩),
    (true,.addTail 6),(false,.addHead 7),(true,.addTail 8),(true,.removeElem 6)]

theorem lists_are_sequences_two : ∃ after, ((ListStore.mk ObjectHeap.empty fun _ => ⟨0,0,0,fun _ _ => false⟩).run twoLists =
      some ([none,none,none,none,none,none,some 6],after)) ∧
    (after.memory true).Shows ⟨[5,8],(· == ·)⟩ ∧ (after.memory false).Shows ⟨[7],(· == ·)⟩ := by
  obtain ⟨after,run,shown⟩ := lists_are_sequences (ListStore.mk ObjectHeap.empty fun _ => ⟨0,0,0,fun _ _ => false⟩) twoLists
    [none,none,none,none,none,none,some 6] _ rfl
  exact ⟨after,run,shown true _ rfl,shown false _ rfl⟩

/-- The data that the operations append to the list `i`, and the data that they take from it. -/
def appended (i : ι) (operations : List (ι × Operation D)) : List D :=
  operations.filterMap fun o => if o.1 = i then (match o.2 with | .addTail data => some data | _ => none) else none

def returned (i : ι) (operations : List (ι × Operation D)) (results : List (Option D)) : List D :=
  (operations.zip results).filterMap fun o => if o.1.1 = i then o.2 else none

/-- A list that only `add_tail` and `pop_head` are called for, as the ready queue while processes
run, returns what was appended in the order in which it was. -/
theorem first_in_first_out (queue : ∀ o ∈ operations, o.1 = i → (∃ data, o.2 = .addTail data) ∨ o.2 = .popHead)
    (start : held i = some s) (allowed : runSequences operations held = some (results,held')) :
    ∃ s', held' i = some s' ∧ s.elems ++ appended i operations = returned i operations results ++ s'.elems := by
  induction operations generalizing held s results with
  | nil =>
    obtain ⟨rfl,rfl⟩ := Prod.mk.inj (Option.some.inj allowed)
    exact ⟨s,start,List.append_nil _⟩
  | cons o operations ih =>
    obtain ⟨j,operation⟩ := o
    obtain ⟨⟨result,q⟩,act,rest⟩ := Option.bind_eq_some_iff.mp allowed
    obtain ⟨⟨later,final⟩,others,same⟩ := Option.bind_eq_some_iff.mp rest
    obtain ⟨rfl,rfl⟩ := Prod.mk.inj (Option.some.inj same)
    have queue' := fun o member => queue o (List.mem_cons_of_mem _ member)
    by_cases here : j = i
    · subst here
      obtain ⟨s',ended,order⟩ := ih queue' (Function.update_self j (some q) held) others
      refine ⟨s',ended,?_⟩
      rcases queue _ List.mem_cons_self rfl with ⟨data,added⟩ | popped
      · simp only at added
        subst added
        rw [start] at act
        obtain ⟨rfl,rfl⟩ := Prod.mk.inj (Option.some.inj act)
        have first : appended j ((j,Operation.addTail data) :: operations) = data :: appended j operations :=
          List.filterMap_cons_some (if_pos rfl)
        have none : returned j ((j,Operation.addTail data) :: operations) (none :: later) = returned j operations later :=
          List.filterMap_cons_none (if_pos rfl)
        rw [first,none,← order,List.append_assoc,List.singleton_append]
      · simp only at popped
        subst popped
        rw [start] at act
        obtain ⟨data,head,same⟩ := Option.map_eq_some_iff.mp act
        obtain ⟨rfl,rfl⟩ := Prod.mk.inj same
        obtain ⟨back,split⟩ := List.head?_eq_some_iff.mp head
        have none : appended j ((j,Operation.popHead) :: operations) = appended j operations :=
          List.filterMap_cons_none (if_pos rfl)
        have first : returned j ((j,Operation.popHead) :: operations) (some data :: later) = data :: returned j operations later :=
          List.filterMap_cons_some (if_pos rfl)
        rw [none,first,split,List.cons_append,List.cons_append,← order,split,List.tail_cons]
    · have kept : Function.update held j (some q) i = some s := (Function.update_of_ne (Ne.symm here) _ _).trans start
      obtain ⟨s',ended,order⟩ := ih queue' kept others
      refine ⟨s',ended,?_⟩
      have none : appended i ((j,operation) :: operations) = appended i operations := List.filterMap_cons_none (if_neg here)
      have none' : returned i ((j,operation) :: operations) (result :: later) = returned i operations later :=
        List.filterMap_cons_none (if_neg here)
      rw [none,none']
      exact order

end

end MyShell.Demand
