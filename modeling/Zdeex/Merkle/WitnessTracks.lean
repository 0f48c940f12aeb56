import Zdeex.Merkle.IncrementalWitness

namespace Zdeex.Merkle.IncrementalWitness

open Zdeex.Framework NodeHash
open IncrementalMerkleTree (Represents slots)

variable {H : Type} {O : HashClass H} {Depth : Nat}

/-- The witness of one of the leaves `L`, in step with the tree of all of them. -/
def Tracks (O : HashClass H) (Depth : Nat) (w : IncrementalWitness H) (L : List H) : Prop :=
  ∃L₁ L₂,L=L₁++L₂ ∧ L₁≠[] ∧ Represents O w.tree L₁ ∧ Follows O Depth w L₂

theorem tracks_witness {t : IncrementalMerkleTree H} {L : List H} (h : Represents O t L)
    (hL : L≠[]) : Tracks O Depth t.witness L :=
  ⟨L,[],by simp,hL,h,[],filling_nil _ 0 _,rfl⟩

/-- The leaves that may follow the first ones fit into the holes of the tree. -/
theorem capacity_of_room (hD : 1≤Depth) {t : IncrementalMerkleTree H} {L₁ : List H}
    (h : Represents O t L₁) (hne : L₁≠[]) (hlen : L₁.length≤2^Depth) :
    L₁.length+capacity 0 (slots Depth t)=2^Depth := by
  have hparents := h.parents_length_lt hD hlen
  obtain ⟨P,x,hP,-,hfront,-⟩ := h.lastLeaf hne Depth
  have htotal := hfront.length_add_capacity
  rw [IncrementalMerkleTree.slots_length hparents,Nat.zero_add] at htotal
  rw [hP,List.length_append,List.length_singleton]
  omega

theorem Tracks.append (hO : O.Lawful) (hD : 1≤Depth) {w : IncrementalWitness H} {L : List H}
    (h : Tracks O Depth w L) (hL : L.length<2^Depth) (x : H) :
    ∃w',w.append O Depth x=(.ok (),w') ∧ Tracks O Depth w' (L++[x]) := by
  obtain ⟨L₁,L₂,rfl,hne,hrep,hfol⟩ := h
  rw [List.length_append] at hL
  have hroom := capacity_of_room hD hrep hne (by omega)
  have hparents := hrep.parents_length_lt hD (by omega)
  obtain ⟨w',hw',htree,hfol'⟩ := hfol.append hO hD hrep hne hparents (by omega) x
  refine ⟨w',hw',L₁,L₂++[x],List.append_assoc L₁ L₂ [x],hne,?_,hfol'⟩
  rw [htree]
  exact hrep

theorem Tracks.root_eq (hO : O.Lawful) (hD : 1≤Depth) {w : IncrementalWitness H} {L : List H}
    (h : Tracks O Depth w L) (hL : L.length≤2^Depth) : w.root O Depth=O.treeRoot Depth L := by
  obtain ⟨L₁,L₂,rfl,hne,hrep,hfol⟩ := h
  rw [List.length_append] at hL
  have hparents := hrep.parents_length_lt hD (by omega)
  obtain ⟨P,x,hP,-,hfront,hroot⟩ := hrep.lastLeaf hne Depth
  have hfold := hfront.foldPath_eq _ _ [x] (by simp) (.inl rfl) (hfol.partialPath hO)
  rw [IncrementalMerkleTree.slots_length hparents,Nat.zero_add,← hP] at hfold
  rw [IncrementalWitness.root,hroot]
  exact hfold

end Zdeex.Merkle.IncrementalWitness
