import Mathlib.Data.List.Pairwise
import Witos.Mm.HeapLayout

/-!
# The free list

The link words of the free list as a ring of addresses.  Nodes are spaced
eight bytes apart, so the two link words of one node are not those of
another; this is what makes `list_add_tail` and `list_del` edits of the ring.
The nodes in memory are the payload addresses of the vacant blocks.
-/

namespace Witos.Mm

open Library

/-- Two `struct list_head` objects at these addresses do not overlap. -/
def Apart (left right : Nat) : Prop :=
  left + 8 ≤ right ∨ right + 8 ≤ left

instance : Std.Symm Apart where
  symm := by
    intro left right apart
    unfold Apart at *
    omega

/-- The circular list with head `freeList`, whose nodes are disjoint objects
of the address space. -/
structure FreeRing (mem : Mem) (freeList : Nat) (nodes : List Nat) : Prop where
  ring :
    LinkedRing (fun node => mem node) (fun node => mem (node + 4)) freeList
      nodes
  apart : (freeList :: nodes).Pairwise Apart
  bounded : ∀ node ∈ freeList :: nodes, node + 8 ≤ 2 ^ 32

namespace FreeRing

variable {mem mem' : Mem} {freeList : Nat} {nodes : List Nat}

theorem nodup (free : FreeRing mem freeList nodes) :
    (freeList :: nodes).Nodup := by
  apply free.apart.imp
  intro left right apart equality
  unfold Apart at apart
  omega

theorem apart_of_mem (free : FreeRing mem freeList nodes) {left right : Nat}
    (leftMember : left ∈ freeList :: nodes)
    (rightMember : right ∈ freeList :: nodes) (different : left ≠ right) :
    Apart left right :=
  free.apart.forall leftMember rightMember different

/-- No node begins where the `prev` field of a node lies. -/
theorem next_ne_prev (free : FreeRing mem freeList nodes) {node other : Nat}
    (member : node ∈ freeList :: nodes)
    (otherMember : other ∈ freeList :: nodes) : node ≠ other + 4 := by
  by_cases same : node = other
  · omega
  · have := free.apart_of_mem member otherMember same
    unfold Apart at this
    omega

theorem prevField_eq (free : FreeRing mem freeList nodes) {node : Nat}
    (member : node ∈ freeList :: nodes) : prevField node = node + 4 := by
  have := free.bounded node member
  exact add32_of_lt (by omega)

theorem congr (free : FreeRing mem freeList nodes)
    (same : ∀ node ∈ freeList :: nodes,
      mem' node = mem node ∧ mem' (node + 4) = mem (node + 4)) :
    FreeRing mem' freeList nodes :=
  { ring := free.ring.congr (fun node member => (same node member).1)
      (fun node member => (same node member).2)
    apart := free.apart
    bounded := free.bounded }

theorem neighbours_mem {next prev : Nat → Nat} {head node : Nat}
    {left right : List Nat}
    (ring : LinkedRing next prev head (left ++ node :: right)) :
    next node ∈ head :: (left ++ right) ∧
      prev node ∈ head :: (left ++ right) := by
  obtain ⟨leftPart, rightPart, leftShape, rightShape, -⟩ := ring.neighbours
  have isNext : next node ∈ right ++ [head] := by simp [rightShape]
  have isPrev : prev node ∈ head :: left := by simp [leftShape]
  simp only [List.mem_append, List.mem_cons, List.not_mem_nil,
    or_false] at isNext isPrev ⊢
  tauto

/-- What `list_del` does to a member of the list. -/
theorem listDel {left right : List Nat} {node : Nat}
    (free : FreeRing mem freeList (left ++ node :: right)) :
    FreeRing (Mm.listDel mem node) freeList (left ++ right) ∧
      ∀ word, (∀ other ∈ freeList :: (left ++ right),
        word ≠ other ∧ word ≠ other + 4) →
          Mm.listDel mem node word = mem word := by
  have sub : (freeList :: (left ++ right)).Sublist
      (freeList :: (left ++ node :: right)) := by simp
  have nodeMember : node ∈ freeList :: (left ++ node :: right) := by simp
  obtain ⟨nextMember, prevMember⟩ := neighbours_mem free.ring
  have shape : Mm.listDel mem node =
      (mem.store (mem node + 4) (mem (node + 4))).store
        (mem (node + 4)) (mem node) := by
    have nodeField := free.prevField_eq nodeMember
    have nextField := free.prevField_eq (sub.subset nextMember)
    simp only [Mm.listDel, Mm.nextField, nodeField, nextField]
  rw [shape]
  have apart : ∀ other ∈ freeList :: (left ++ right),
      ∀ other' ∈ freeList :: (left ++ right), other ≠ other' + 4 := by
    intro other member other' member'
    exact free.next_ne_prev (sub.subset member) (sub.subset member')
  constructor
  · refine ⟨?_, free.apart.sublist sub,
      fun other member => free.bounded other (sub.subset member)⟩
    apply LinkedRing.remove free.ring free.nodup
    · exact Mem.store_same _ _ _
    · rw [Mem.store_of_ne _ _ (Ne.symm (apart _ prevMember _ nextMember)),
        Mem.store_same]
    · intro other member notPrev
      rw [Mem.store_of_ne _ _ notPrev,
        Mem.store_of_ne _ _ (apart _ member _ nextMember)]
    · intro other member notNext
      rw [Mem.store_of_ne _ _ (Ne.symm (apart _ prevMember _ member)),
        Mem.store_of_ne _ _ (by omega)]
  · intro word outside
    rw [Mem.store_of_ne _ _ (outside _ prevMember).1,
      Mem.store_of_ne _ _ (outside _ nextMember).2]

/-- The four stores of `list_add_tail`. -/
theorem listAddTail_eq (free : FreeRing mem freeList nodes) {node : Nat}
    (bounded : node + 8 ≤ 2 ^ 32) :
    Mm.listAddTail mem node freeList =
      (((mem.store (freeList + 4) node).store node freeList).store
        (node + 4) (mem (freeList + 4))).store (mem (freeList + 4)) node := by
  have headMember : freeList ∈ freeList :: nodes := by simp
  have nodeField : prevField node = node + 4 := add32_of_lt (by omega)
  simp only [Mm.listAddTail, listInsert, nextField, nodeField,
    free.prevField_eq headMember]

theorem linkedRing_listAddTail (free : FreeRing mem freeList nodes)
    {node : Nat} (apart : ∀ other ∈ freeList :: nodes, Apart other node)
    (bounded : node + 8 ≤ 2 ^ 32) :
    LinkedRing (Mm.listAddTail mem node freeList)
      (fun other => Mm.listAddTail mem node freeList (other + 4)) freeList
      (nodes ++ [node]) := by
  have lastMember := free.ring.prev_mem
  have headMember : freeList ∈ freeList :: nodes := by simp
  have fromNode : ∀ other ∈ freeList :: nodes,
      other ≠ node ∧ other ≠ node + 4 ∧ other + 4 ≠ node ∧
        other + 4 ≠ node + 4 := by
    intro other member
    have := apart other member
    unfold Apart at this
    omega
  have lastApart := fromNode _ lastMember
  rw [free.listAddTail_eq bounded]
  apply LinkedRing.addLast free.ring free.nodup
  · exact Mem.store_same _ _ _
  · simp (disch := omega) only [Mem.store_of_ne, Mem.store_same]
  · simp (disch := omega) only [Mem.store_of_ne, Mem.store_same]
  · have := fromNode _ headMember
    have := free.next_ne_prev lastMember headMember
    simp (disch := omega) only [Mem.store_of_ne, Mem.store_same]
  · intro other member notLast
    have := fromNode _ member
    have := free.next_ne_prev member headMember
    simp (disch := omega) only [Mem.store_of_ne]
  · intro other member
    have inList := List.mem_cons_of_mem freeList member
    have := fromNode _ inList
    have := free.next_ne_prev lastMember inList
    have notHead : other ≠ freeList := by
      rintro rfl
      exact (List.nodup_cons.mp free.nodup).1 member
    simp (disch := omega) only [Mem.store_of_ne]

/-- What `list_add_tail` does with an object apart from the list. -/
theorem listAddTail (free : FreeRing mem freeList nodes) (node : Nat)
    (apart : ∀ other ∈ freeList :: nodes, Apart other node)
    (bounded : node + 8 ≤ 2 ^ 32) :
    FreeRing (Mm.listAddTail mem node freeList) freeList (nodes ++ [node]) ∧
      ∀ word, (∀ other ∈ freeList :: (nodes ++ [node]),
        word ≠ other ∧ word ≠ other + 4) →
          Mm.listAddTail mem node freeList word = mem word := by
  constructor
  · refine ⟨free.linkedRing_listAddTail apart bounded, ?_, ?_⟩
    · rw [← List.cons_append, List.pairwise_append]
      refine ⟨free.apart, by simp, ?_⟩
      intro other member added addedMember
      rw [List.mem_singleton] at addedMember
      subst addedMember
      exact apart other member
    · intro other member
      rw [← List.cons_append, List.mem_append, List.mem_singleton] at member
      rcases member with old | rfl
      · exact free.bounded other old
      · exact bounded
  · intro word outside
    have lastMember := free.ring.prev_mem
    have atNode := outside node (by simp)
    have atHead := outside freeList (by simp)
    have atLast := outside (mem (freeList + 4)) (by
      rw [← List.cons_append]
      exact List.mem_append_left _ lastMember)
    rw [free.listAddTail_eq bounded]
    simp (disch := omega) only [Mem.store_of_ne]

end FreeRing

end Witos.Mm
