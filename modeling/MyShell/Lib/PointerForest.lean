import Mathlib.Logic.Function.Basic
import Mathlib.Data.List.Infix

/-! Trees of blocks linked by pointers in a memory, and how an allocating program
lets a forest of them grow. The null pointer is 0. -/
namespace PointerForest

/-- How a block is read as an array of pointers. -/
structure Shape (β : Type) where
  word : β → Nat → Nat
  blank : β
  fanout : Nat
  word_blank : ∀ i, word blank i = 0

/-- A memory of blocks with its allocation marks. -/
structure Arena (β : Type) where
  mem : Nat → β
  used : Nat → Prop

variable {β ι : Type} (S : Shape β)

/-- The block reached from `p` along a path of indices, or null. -/
def node (mem : Nat → β) : Nat → List Nat → Nat
  | p, [] => p
  | p, i :: path => if p = 0 then 0 else node mem (S.word (mem p) i) path

theorem node_null (mem : Nat → β) (path : List Nat) : node S mem 0 path = 0 := by
  cases path with
  | nil => rfl
  | cons i path => exact if_pos rfl

theorem node_cons (mem : Nat → β) (p i : Nat) (path : List Nat) (present : p ≠ 0) :
    node S mem p (i :: path) = node S mem (S.word (mem p) i) path := if_neg present

/-- A node depends on the blocks above it only. -/
theorem node_congr (mem mem' : Nat → β) (p : Nat) (path : List Nat)
    (same : ∀ above, above <+: path → above.length < path.length → node S mem p above ≠ 0 →
      mem' (node S mem p above) = mem (node S mem p above)) :
    node S mem' p path = node S mem p path := by
  induction path generalizing p with
  | nil => rfl
  | cons i path ih =>
    by_cases null : p = 0
    · rw [null,node_null,node_null]
    · have top := same [] (List.nil_prefix) (by simp) null
      change mem' p = mem p at top
      rw [node_cons S mem' p i path null,node_cons S mem p i path null,top]
      apply ih
      intro above inside short present
      have lifted := same (i :: above) (by simpa using inside) (by simpa using short)
      rw [node_cons S mem p i above null] at lifted
      exact lifted present

/-- A path into the tree of root `i`: as long as the tree is deep at most. -/
structure Key (level : ι → Nat) (dom : ι → Prop) (i : ι) (path : List Nat) : Prop where
  dom : dom i
  short : path.length ≤ level i
  inside : ∀ j ∈ path, j < S.fanout

theorem Key.above {level : ι → Nat} {dom : ι → Prop} {i : ι} {path above : List Nat}
    (key : Key S level dom i path) (inside : above <+: path) : Key S level dom i above :=
  ⟨key.dom,inside.length_le.trans key.short,fun j member => key.inside j (inside.subset member)⟩

/-- Every node is marked, outside the reserved blocks, and reached by one path only. -/
structure Sound (level : ι → Nat) (dom : ι → Prop) (reserved : Nat → Prop) (a : Arena β)
    (root : ι → Nat) : Prop where
  marked : ∀ i path, Key S level dom i path → node S a.mem (root i) path ≠ 0 →
    a.used (node S a.mem (root i) path)
  apart : ∀ i path, Key S level dom i path → node S a.mem (root i) path ≠ 0 →
    ¬reserved (node S a.mem (root i) path)
  single : ∀ i p j q, Key S level dom i p → Key S level dom j q → node S a.mem (root i) p ≠ 0 →
    node S a.mem (root i) p = node S a.mem (root j) q → i = j ∧ p = q

/-- Growth of a forest from `a` to `b`. Marks stay and nodes stay; a node that
appears was unmarked, and a leaf that appears is blank. A marked block that is no
inner node keeps its contents, unless it is dirty, or it is block 0 after a growth
that was not `done`. -/
structure Grow (level : ι → Nat) (dom : ι → Prop) (dirty : Nat → Prop) (done : Bool)
    (a : Arena β) (root : ι → Nat) (b : Arena β) (root' : ι → Nat) : Prop where
  mono : ∀ x, a.used x → b.used x
  kept : ∀ i path, Key S level dom i path → node S a.mem (root i) path ≠ 0 →
    node S b.mem (root' i) path = node S a.mem (root i) path
  fresh : ∀ i path, Key S level dom i path → node S a.mem (root i) path = 0 →
    node S b.mem (root' i) path ≠ 0 →
    ¬a.used (node S b.mem (root' i) path) ∧ b.used (node S b.mem (root' i) path)
  single : ∀ i p j q, Key S level dom i p → Key S level dom j q →
    node S a.mem (root i) p = 0 → node S a.mem (root j) q = 0 → node S b.mem (root' i) p ≠ 0 →
    node S b.mem (root' i) p = node S b.mem (root' j) q → i = j ∧ p = q
  frame : ∀ x, a.used x → ¬dirty x → (done = true ∨ x ≠ 0) →
    (∀ i path, Key S level dom i path → path.length < level i → node S a.mem (root i) path ≠ 0 →
      node S a.mem (root i) path ≠ x) → b.mem x = a.mem x
  blank : ∀ i path, Key S level dom i path → path.length = level i → node S a.mem (root i) path = 0 →
    node S b.mem (root' i) path ≠ 0 → b.mem (node S b.mem (root' i) path) = S.blank

section
variable {S} {level : ι → Nat} {dom : ι → Prop} {reserved dirty : Nat → Prop} {done : Bool}
variable {a b c : Arena β} {root root' root'' : ι → Nat}

theorem Grow.refl : Grow S level dom dirty done a root a root where
  mono _ marked := marked
  kept _ _ _ _ := rfl
  fresh _ _ _ null present := absurd null present
  single _ _ _ _ _ _ null _ present _ := absurd null present
  frame _ _ _ _ _ := rfl
  blank _ _ _ _ null present := absurd null present

/-- Without nodes above it changing, a node of a sound forest stays where it is. -/
theorem Sound.node_eq (sound : Sound S level dom reserved a root) (mem : Nat → β) (i : ι) (path : List Nat)
    (key : Key S level dom i path)
    (same : ∀ x, a.used x → ¬reserved x → x ≠ 0 → (∃ above, Key S level dom i above ∧
      above.length < level i ∧ node S a.mem (root i) above = x) → mem x = a.mem x) :
    node S mem (root i) path = node S a.mem (root i) path := by
  apply node_congr
  intro above inside short present
  have upper := key.above S inside
  have deep : above.length < level i := Nat.lt_of_lt_of_le short key.short
  exact same _ (sound.marked i above upper present) (sound.apart i above upper present) present
    ⟨above,upper,deep,rfl⟩

/-- Only the roots of the trees matter. -/
theorem Sound.congr_root (sound : Sound S level dom reserved a root) (same : ∀ i, dom i → root' i = root i) :
    Sound S level dom reserved a root' := by
  constructor
  · intro i path key
    rw [same i key.dom]
    exact sound.marked i path key
  · intro i path key
    rw [same i key.dom]
    exact sound.apart i path key
  · intro i p j q key other
    rw [same i key.dom,same j other.dom]
    exact sound.single i p j q key other

/-- Further trees without any node, and other blocks kept apart. -/
theorem Sound.extend {wider : ι → Prop} {kept : Nat → Prop} (sound : Sound S level dom reserved a root)
    (same : ∀ i, dom i → root' i = root i) (either : ∀ i, wider i → dom i ∨ root' i = 0)
    (free : ∀ i path, Key S level dom i path → node S a.mem (root i) path ≠ 0 → ¬kept (node S a.mem (root i) path)) :
    Sound S level wider kept a root' := by
  have old (i : ι) (path : List Nat) (key : Key S level wider i path) (present : node S a.mem (root' i) path ≠ 0) :
      Key S level dom i path ∧ root' i = root i := by
    rcases either i key.dom with inside | null
    · exact ⟨⟨inside,key.short,key.inside⟩,same i inside⟩
    · rw [null,node_null] at present
      exact absurd rfl present
  constructor
  · intro i path key present
    obtain ⟨key',equal⟩ := old i path key present
    rw [equal] at present ⊢
    exact sound.marked i path key' present
  · intro i path key present
    obtain ⟨key',equal⟩ := old i path key present
    rw [equal] at present ⊢
    exact free i path key' present
  · intro i p j q key other present met
    obtain ⟨key',equal⟩ := old i p key present
    obtain ⟨other',equal'⟩ := old j q other (met ▸ present)
    rw [equal] at present met
    rw [equal'] at met
    exact sound.single i p j q key' other' present met

/-- A memory that changed outside the inner nodes holds the same forest. -/
theorem Sound.rewrite (sound : Sound S level dom reserved a root) (mem : Nat → β)
    (same : ∀ x, a.used x → ¬reserved x → x ≠ 0 → (∃ i above, Key S level dom i above ∧
      above.length < level i ∧ node S a.mem (root i) above = x) → mem x = a.mem x) :
    Sound S level dom reserved ⟨mem,a.used⟩ root := by
  have kept (i : ι) (path : List Nat) (key : Key S level dom i path) :
      node S mem (root i) path = node S a.mem (root i) path :=
    sound.node_eq mem i path key fun x marked free present ⟨above,inner⟩ =>
      same x marked free present ⟨i,above,inner⟩
  constructor
  · intro i path key present
    rw [kept i path key] at present ⊢
    exact sound.marked i path key present
  · intro i path key present
    rw [kept i path key] at present ⊢
    exact sound.apart i path key present
  · intro i p j q key other present met
    rw [kept i p key] at present met
    rw [kept j q other] at met
    exact sound.single i p j q key other present met

theorem Sound.grow (sound : Sound S level dom reserved a root)
    (grow : Grow S level dom dirty done a root b root') (held : ∀ x, reserved x → a.used x) :
    Sound S level dom reserved b root' := by
  constructor
  · intro i path key present
    by_cases null : node S a.mem (root i) path = 0
    · exact (grow.fresh i path key null present).2
    · rw [grow.kept i path key null]
      exact grow.mono _ (sound.marked i path key null)
  · intro i path key present
    by_cases null : node S a.mem (root i) path = 0
    · exact fun taken => (grow.fresh i path key null present).1 (held _ taken)
    · rw [grow.kept i path key null]
      exact sound.apart i path key null
  · intro i p j q key other present same
    by_cases null : node S a.mem (root i) p = 0 <;> by_cases empty : node S a.mem (root j) q = 0
    · exact grow.single i p j q key other null empty present same
    · rw [grow.kept j q other empty] at same
      exact absurd (same ▸ sound.marked j q other empty) (grow.fresh i p key null present).1
    · rw [grow.kept i p key null] at same present
      have appeared := grow.fresh j q other empty (same ▸ present)
      exact absurd (same ▸ sound.marked i p key null) appeared.1
    · rw [grow.kept i p key null,grow.kept j q other empty] at same
      exact sound.single i p j q key other null same

theorem Grow.trans (sound : Sound S level dom reserved a root) (held : ∀ x, reserved x → a.used x)
    (within : ∀ x, dirty x → reserved x) (first : Grow S level dom dirty true a root b root')
    (second : Grow S level dom dirty done b root' c root'') :
    Grow S level dom dirty done a root c root'' := by
  have after := sound.grow first held
  constructor
  · exact fun x marked => second.mono x (first.mono x marked)
  · intro i path key present
    have same := first.kept i path key present
    rw [second.kept i path key (same.symm ▸ present),same]
  · intro i path key null present
    by_cases empty : node S b.mem (root' i) path = 0
    · have appeared := second.fresh i path key empty present
      exact ⟨fun marked => appeared.1 (first.mono _ marked),appeared.2⟩
    · rw [second.kept i path key empty]
      have appeared := first.fresh i path key null empty
      exact ⟨appeared.1,second.mono _ appeared.2⟩
  · intro i p j q key other null empty present same
    by_cases ip : node S b.mem (root' i) p = 0 <;> by_cases jq : node S b.mem (root' j) q = 0
    · exact second.single i p j q key other ip jq present same
    · rw [second.kept j q other jq] at same
      exact absurd (same ▸ (first.fresh j q other empty jq).2) (second.fresh i p key ip present).1
    · rw [second.kept i p key ip] at same
      have appeared := second.fresh j q other jq (same ▸ ip)
      exact absurd (same ▸ (first.fresh i p key null ip).2) appeared.1
    · rw [second.kept i p key ip,second.kept j q other jq] at same
      exact first.single i p j q key other null empty ip same
  · intro x marked clean allowed outer
    rw [second.frame x (first.mono x marked) clean allowed,first.frame x marked clean (Or.inl rfl) outer]
    intro i path key deep present same
    by_cases null : node S a.mem (root i) path = 0
    · exact (first.fresh i path key null present).1 (same ▸ marked)
    · exact outer i path key deep null ((first.kept i path key null).symm.trans same)
  · intro i path key leaf null present
    by_cases empty : node S b.mem (root' i) path = 0
    · exact second.blank i path key leaf empty present
    · have appeared := first.fresh i path key null empty
      have clean : ¬dirty (node S b.mem (root' i) path) :=
        fun stained => appeared.1 (held _ (within _ stained))
      rw [second.kept i path key empty,
        second.frame _ appeared.2 clean (Or.inr empty),first.blank i path key leaf null empty]
      intro j q other deep inner same
      obtain ⟨equal,paths⟩ := after.single j q i path other key inner same
      subst equal
      rw [paths,leaf] at deep
      exact Nat.lt_irrefl _ deep

/-- Only the roots of the trees matter, before and after. -/
theorem Grow.congr_root {old new : ι → Nat} (grow : Grow S level dom dirty done a root b root')
    (before : ∀ i, dom i → old i = root i) (after : ∀ i, dom i → new i = root' i) :
    Grow S level dom dirty done a old b new := by
  constructor
  · exact grow.mono
  · intro i path key
    rw [before i key.dom,after i key.dom]
    exact grow.kept i path key
  · intro i path key
    rw [before i key.dom,after i key.dom]
    exact grow.fresh i path key
  · intro i p j q key other
    rw [before i key.dom,after i key.dom,before j other.dom,after j other.dom]
    exact grow.single i p j q key other
  · intro x marked clean allowed outer
    apply grow.frame x marked clean allowed
    intro i path key deep
    rw [← before i key.dom]
    exact outer i path key deep
  · intro i path key
    rw [before i key.dom,after i key.dom]
    exact grow.blank i path key

/-- A growth whose new roots are, some of them, not recorded. -/
theorem Grow.sub (grow : Grow S level dom dirty done a root b root')
    (choice : ∀ i, dom i → root'' i = root' i ∨ root'' i = root i) :
    Grow S level dom dirty done a root b root'' := by
  have either (i : ι) (path : List Nat) (key : Key S level dom i path) :
      node S b.mem (root'' i) path = node S b.mem (root' i) path ∨
        (node S b.mem (root'' i) path = 0 ∧ node S a.mem (root i) path = 0) := by
    rcases choice i key.dom with same | old
    · exact Or.inl (by rw [same])
    · by_cases null : root i = 0
      · exact Or.inr (by rw [old,null,node_null,node_null]; exact ⟨rfl,rfl⟩)
      · have upper : Key S level dom i [] := key.above S List.nil_prefix
        exact Or.inl (by rw [old,show root' i = root i from grow.kept i [] upper null])
  have recorded (i : ι) (path : List Nat) (key : Key S level dom i path)
      (present : node S b.mem (root'' i) path ≠ 0) :
      node S b.mem (root'' i) path = node S b.mem (root' i) path :=
    (either i path key).resolve_right fun lost => present lost.1
  constructor
  · exact grow.mono
  · intro i path key present
    rcases either i path key with same | lost
    · rw [same,grow.kept i path key present]
    · exact absurd lost.2 present
  · intro i path key null present
    have same := recorded i path key present
    rw [same] at present ⊢
    exact grow.fresh i path key null present
  · intro i p j q key other null empty present same
    have left := recorded i p key present
    have right := recorded j q other (same ▸ present)
    rw [left,right] at same
    exact grow.single i p j q key other null empty (left ▸ present) same
  · exact grow.frame
  · intro i path key leaf null present
    have same := recorded i path key present
    rw [same] at present ⊢
    exact grow.blank i path key leaf null present

/-- The trees of the forest one by one. -/
theorem Sound.tree (sound : Sound S level dom reserved a root) (j : ι) (inside : dom j) :
    Sound S (fun _ : Unit => level j) (fun _ => True) reserved a (fun _ => root j) := by
  have own (path : List Nat) (key : Key S (fun _ : Unit => level j) (fun _ => True) () path) :
      Key S level dom j path := ⟨inside,key.short,key.inside⟩
  constructor
  · exact fun _ path key => sound.marked j path (own path key)
  · exact fun _ path key => sound.apart j path (own path key)
  · exact fun _ p _ q key other present met => ⟨rfl,(sound.single j p j q (own p key) (own q other) present met).2⟩

/-- A forest `κ` inside the forest `ι`: its trees stand at the indices `place`. -/
structure Subforest {κ : Type} (levels : κ → Nat) (inner : κ → Prop) (level : ι → Nat) (dom : ι → Prop)
    (place : κ → ι) : Prop where
  tall : ∀ k, levels k = level (place k)
  inside : ∀ k, inner k → dom (place k)
  split : ∀ i, dom i → (∃ k, inner k ∧ place k = i) ∨ ∀ k, inner k → place k ≠ i

section
variable {κ : Type} {levels : κ → Nat} {inner : κ → Prop} {place : κ → ι} {twig : κ → Nat}

theorem Subforest.key (part : Subforest levels inner level dom place) (k : κ) (path : List Nat)
    (key : Key S levels inner k path) : Key S level dom (place k) path :=
  ⟨part.inside k key.dom,part.tall k ▸ key.short,key.inside⟩

theorem Sound.part (part : Subforest levels inner level dom place) (sound : Sound S level dom reserved a root)
    (distinct : ∀ k l, place k = place l → k = l) : Sound S levels inner reserved a (fun k => root (place k)) where
  marked k path key := sound.marked _ path (part.key k path key)
  apart k path key := sound.apart _ path (part.key k path key)
  single k p l q key other present met := by
    obtain ⟨same,paths⟩ := sound.single _ p _ q (part.key k p key) (part.key l q other) present met
    exact ⟨distinct k l same,paths⟩

/-- While a part of the forest grows, the other trees stay as they are. -/
theorem Grow.others (part : Subforest levels inner level dom place) (sound : Sound S level dom reserved a root)
    (within : ∀ x, dirty x → reserved x) (grow : Grow S levels inner dirty done a (fun k => root (place k)) b twig)
    (i : ι) (path : List Nat) (key : Key S level dom i path) (ne : ∀ k, inner k → place k ≠ i) :
    node S b.mem (root i) path = node S a.mem (root i) path := by
  apply sound.node_eq b.mem i path key
  rintro x marked free present ⟨above,upper,deep,here⟩
  apply grow.frame x marked (fun stained => free (within x stained)) (Or.inr present)
  intro k q lower shallow _ same
  have met : node S a.mem (root i) above = node S a.mem (root (place k)) q := here.trans same.symm
  exact ne k lower.dom (sound.single i above _ q upper (part.key k q lower) (here ▸ present) met).1.symm

/-- The growth of a part is a growth of the forest it stands in. -/
theorem Grow.embed (part : Subforest levels inner level dom place) (sound : Sound S level dom reserved a root)
    (within : ∀ x, dirty x → reserved x) (grow : Grow S levels inner dirty done a (fun k => root (place k)) b twig)
    (own : ∀ k, inner k → root' (place k) = twig k)
    (rest : ∀ i, dom i → (∀ k, inner k → place k ≠ i) → root' i = root i) :
    Grow S level dom dirty done a root b root' := by
  have lift (k : κ) (path : List Nat) (inside : inner k) (key : Key S level dom (place k) path) :
      Key S levels inner k path := ⟨inside,(part.tall k).symm ▸ key.short,key.inside⟩
  have other (i : ι) (path : List Nat) (key : Key S level dom i path) (ne : ∀ k, inner k → place k ≠ i) :
      node S b.mem (root' i) path = node S a.mem (root i) path := by
    rw [rest i key.dom ne]
    exact Grow.others part sound within grow i path key ne
  constructor
  · exact grow.mono
  · intro i path key present
    rcases part.split i key.dom with ⟨k,inside,rfl⟩ | ne
    · rw [own k inside]
      exact grow.kept k path (lift k path inside key) present
    · exact other i path key ne
  · intro i path key null present
    rcases part.split i key.dom with ⟨k,inside,rfl⟩ | ne
    · rw [own k inside] at present ⊢
      exact grow.fresh k path (lift k path inside key) null present
    · rw [other i path key ne] at present
      exact absurd null present
  · intro i path j q key key' null empty present met
    rcases part.split i key.dom with ⟨k,inside,rfl⟩ | ne
    · rcases part.split j key'.dom with ⟨l,within',rfl⟩ | ne'
      · rw [own k inside] at present met
        rw [own l within'] at met
        obtain ⟨rfl,paths⟩ := grow.single k path l q (lift k path inside key) (lift l q within' key') null empty present met
        exact ⟨rfl,paths⟩
      · rw [other j q key' ne',empty] at met
        exact absurd met present
    · rw [other i path key ne] at present
      exact absurd null present
  · intro x marked clean allowed outer
    apply grow.frame x marked clean allowed
    intro k path key deep present
    exact outer (place k) path (part.key k path key) (part.tall k ▸ deep) present
  · intro i path key leaf null present
    rcases part.split i key.dom with ⟨k,inside,rfl⟩ | ne
    · rw [own k inside] at present ⊢
      exact grow.blank k path (lift k path inside key) (leaf.trans (part.tall k).symm) null present
    · rw [other i path key ne] at present
      exact absurd null present

end

/-- One tree as a part of the forest. -/
theorem Subforest.tree [DecidableEq ι] (j : ι) (inside : dom j) :
    Subforest (fun _ : Unit => level j) (fun _ => True) level dom (fun _ => j) where
  tall _ := rfl
  inside _ _ := inside
  split i _ := (eq_or_ne j i).imp (fun same => ⟨(),trivial,same⟩) fun ne _ _ => ne

theorem Grow.tree [DecidableEq ι] (sound : Sound S level dom reserved a root)
    (within : ∀ x, dirty x → reserved x) (j : ι) (inside : dom j) (p : Nat)
    (grow : Grow S (fun _ : Unit => level j) (fun _ => True) dirty done a (fun _ => root j) b (fun _ => p)) :
    Grow S level dom dirty done a root b (Function.update root j p) :=
  Grow.embed (Subforest.tree j inside) sound within grow (fun _ _ => Function.update_self _ _ _)
    fun _ _ ne => Function.update_of_ne (ne () trivial).symm _ _

/-- Fewer trees, whose nodes are all still marked. -/
theorem Sound.restrict {inner : ι → Prop} (sound : Sound S level dom reserved a root) (b : Arena β)
    (mem : b.mem = a.mem) (fewer : ∀ i, inner i → dom i)
    (marks : ∀ i path, Key S level inner i path → node S a.mem (root i) path ≠ 0 → b.used (node S a.mem (root i) path)) :
    Sound S level inner reserved b root := by
  have key (i : ι) (path : List Nat) (k : Key S level inner i path) : Key S level dom i path :=
    ⟨fewer i k.dom,k.short,k.inside⟩
  constructor
  · intro i path k present
    rw [mem] at present ⊢
    exact marks i path k present
  · intro i path k present
    rw [mem] at present ⊢
    exact sound.apart i path (key i path k) present
  · intro i p j q k l present met
    rw [mem] at present met
    exact sound.single i p j q (key i p k) (key j q l) present met

/-- Allocation of a blank block for the root of an empty tree. -/
theorem Grow.alloc {depth p : Nat} (present : p ≠ 0) (free : ¬a.used p) (mono : ∀ x, a.used x → b.used x)
    (marked : b.used p) (blank : b.mem p = S.blank)
    (frame : ∀ x, a.used x → ¬dirty x → b.mem x = a.mem x) :
    Grow S (fun _ : Unit => depth) (fun _ => True) dirty done a (fun _ => 0) b (fun _ => p) := by
  have top (path : List Nat) (here : node S b.mem p path ≠ 0) : path = [] := by
    cases path with
    | nil => rfl
    | cons i path =>
      rw [node_cons S b.mem p i path present,blank,S.word_blank,node_null] at here
      contradiction
  constructor
  · exact mono
  · intro _ path _ here
    exact absurd (node_null S a.mem path) here
  · intro _ path _ _ here
    rw [top path here]
    exact ⟨free,marked⟩
  · intro _ path _ q _ _ _ _ here met
    exact ⟨rfl,(top path here).trans (top q (met ▸ here)).symm⟩
  · exact fun x used clean _ _ => frame x used clean
  · intro _ path _ _ _ here
    rw [top path here]
    exact blank

/-- What an allocation that failed may have done to block 0. -/
theorem Grow.failed {depth : Nat} (mono : ∀ x, a.used x → b.used x)
    (frame : ∀ x, a.used x → ¬dirty x → x ≠ 0 → b.mem x = a.mem x) :
    Grow S (fun _ : Unit => depth) (fun _ => True) dirty false a (fun _ => 0) b (fun _ => 0) := by
  constructor
  · exact mono
  · intro _ path _ here
    exact absurd (node_null S a.mem path) here
  · intro _ path _ _ here
    exact absurd (node_null S b.mem path) here
  · intro _ path _ _ _ _ _ _ here
    exact absurd (node_null S b.mem path) here
  · intro x used clean allowed _
    exact frame x used clean (allowed.resolve_left (by simp))
  · intro _ path _ _ _ here
    exact absurd (node_null S b.mem path) here

/-- The children of a block as a forest of their own. -/
theorem Sound.children {depth p : Nat} (present : p ≠ 0)
    (sound : Sound S (fun _ : Unit => depth + 1) (fun _ => True) reserved a (fun _ => p)) :
    Sound S (fun _ : Nat => depth) (· < S.fanout) (fun x => reserved x ∨ x = p) a (S.word (a.mem p)) := by
  have down (i : Nat) (path : List Nat) (key : Key S (fun _ : Nat => depth) (· < S.fanout) i path) :
      Key S (fun _ : Unit => depth + 1) (fun _ => True) () (i :: path) :=
    ⟨trivial,Nat.succ_le_succ key.short,fun j member => (List.mem_cons.mp member).elim
      (fun same => same ▸ key.dom) (key.inside j)⟩
  have step (i : Nat) (path : List Nat) : node S a.mem p (i :: path) = node S a.mem (S.word (a.mem p) i) path :=
    node_cons S a.mem p i path present
  constructor
  · intro i path key here
    exact step i path ▸ sound.marked () _ (down i path key) (by rwa [step])
  · rintro i path key here (taken | own)
    · exact sound.apart () _ (down i path key) (by rwa [step]) (by rwa [step])
    · have top : Key S (fun _ : Unit => depth + 1) (fun _ => True) () [] := ⟨trivial,by simp,by simp⟩
      have met := sound.single () [] () _ top (down i path key) present ((step i path).trans own).symm
      exact absurd met.2 (by simp)
  · intro i path j q key other here met
    have paths := (sound.single () _ () _ (down i path key) (down j q other) (by rwa [step])
      (by rw [step,step,met])).2
    exact List.cons.inj paths

/-- Growth of the children of block `p`, with some of their new roots recorded in it. -/
theorem Grow.block {depth p : Nat} (present : p ≠ 0) (held : ∀ x, reserved x → a.used x)
    (sound : Sound S (fun _ : Unit => depth + 1) (fun _ => True) reserved a (fun _ => p)) {child : Nat → Nat}
    (grow : Grow S (fun _ : Nat => depth) (· < S.fanout) dirty done a (S.word (a.mem p)) b child)
    (marks : c.used = b.used) (others : ∀ x, x ≠ p → c.mem x = b.mem x)
    (choice : ∀ i < S.fanout, S.word (c.mem p) i = child i ∨ S.word (c.mem p) i = S.word (a.mem p) i) :
    Grow S (fun _ : Unit => depth + 1) (fun _ => True) dirty done a (fun _ => p) c (fun _ => p) := by
  have recorded : Grow S (fun _ : Nat => depth) (· < S.fanout) dirty done a (S.word (a.mem p)) b
      (S.word (c.mem p)) := grow.sub choice
  have top : Key S (fun _ : Unit => depth + 1) (fun _ => True) () [] := ⟨trivial,by simp,by simp⟩
  have held' : ∀ x, reserved x ∨ x = p → a.used x := by
    rintro x (taken | own)
    · exact held x taken
    · rw [own]
      exact sound.marked () [] top present
  have below := (sound.children present).grow recorded held'
  have step (mem : Nat → β) (i : Nat) (path : List Nat) :
      node S mem p (i :: path) = node S mem (S.word (mem p) i) path := node_cons S mem p i path present
  have down (i : Nat) (path : List Nat) (key : Key S (fun _ : Unit => depth + 1) (fun _ => True) () (i :: path)) :
      Key S (fun _ : Nat => depth) (· < S.fanout) i path :=
    ⟨key.inside i List.mem_cons_self,Nat.le_of_succ_le_succ key.short,
      fun j member => key.inside j (List.mem_cons_of_mem i member)⟩
  -- `p` is no node below itself, so rewriting it moves none of them
  have after (i : Nat) (path : List Nat) (key : Key S (fun _ : Nat => depth) (· < S.fanout) i path) :
      node S c.mem p (i :: path) = node S b.mem (S.word (c.mem p) i) path := by
    rw [step]
    apply below.node_eq c.mem i path key
    exact fun x _ free _ _ => others x fun own => free (Or.inr own)
  constructor
  · intro x used
    rw [marks]
    exact recorded.mono x used
  · intro _ path key here
    cases path with
    | nil => rfl
    | cons i path =>
      rw [step] at here
      rw [after i path (down i path key),step]
      exact recorded.kept i path (down i path key) here
  · intro _ path key null here
    cases path with
    | nil => exact absurd null present
    | cons i path =>
      rw [step] at null
      rw [after i path (down i path key)] at here ⊢
      rw [marks]
      exact recorded.fresh i path (down i path key) null here
  · intro _ path _ q key other null empty here met
    cases path with
    | nil => exact absurd null present
    | cons i path =>
      cases q with
      | nil => exact absurd empty present
      | cons j q =>
        rw [step] at null empty
        rw [after i path (down i path key)] at here met
        rw [after j q (down j q other)] at met
        obtain ⟨same,paths⟩ := recorded.single i path j q (down i path key) (down j q other) null empty here met
        exact ⟨rfl,by rw [same,paths]⟩
  · intro x used unstained allowed outer
    have ne : x ≠ p := fun own => outer () [] top (by simp) present own.symm
    rw [others x ne]
    apply recorded.frame x used unstained allowed
    intro i path key deep here
    have key' : Key S (fun _ : Unit => depth + 1) (fun _ => True) () (i :: path) :=
      ⟨trivial,Nat.succ_le_succ key.short,fun j member => (List.mem_cons.mp member).elim
        (fun same => same ▸ key.dom) (key.inside j)⟩
    rw [← step] at here ⊢
    exact outer () (i :: path) key' (Nat.succ_lt_succ deep) here
  · intro _ path key leaf null here
    cases path with
    | nil => exact absurd null present
    | cons i path =>
      have key' := down i path key
      rw [step] at null
      rw [after i path key'] at here ⊢
      have ne : node S b.mem (S.word (c.mem p) i) path ≠ p :=
        fun own => below.apart i path key' here (Or.inr own)
      rw [others _ ne]
      exact recorded.blank i path key' (Nat.succ.inj leaf) null here

end
end PointerForest
