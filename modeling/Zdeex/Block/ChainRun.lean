import Zdeex.Block.DisconnectBlock
import Zdeex.Framework.Run

namespace Zdeex.Block

open Zdeex.Framework
open Zdeex.Coins

/-- The node's data on the active chain. Blocks stand with the tip first; an entry of
the block index is named by its block and the blocks below. -/
structure ChainState (Tree : Type) where
  view : View Tree
  index : IndexDb
  undoFiles : List CBlock → Option (List Byte)
  chain : List CBlock

inductive ChainOp where
  | connect (block : CBlock)
  | disconnect

def tipIndex : List CBlock → Option CBlockIndex
  | [] => none
  | block::rest => some ⟨block.hash,rest.length,block.nTime,block.hashFinalSaplingRoot⟩

section Steps

variable {Tree : Type} (R : BlockRules Tree) (K : PubKeys)
  (checksum : Uint256 → List Byte → Uint256)

/-- Undo data are written only when the block has none yet. -/
def storeUndo (chain : List CBlock) (hashPrev : Uint256) (undo : Option CBlockUndo)
    (files : List CBlock → Option (List Byte)) : List CBlock → Option (List Byte) :=
  match files chain,undo with
  | none,some undo => Function.update files chain (some (undoWriteToDisk K checksum hashPrev undo))
  | _,_ => files

def connectTip (block : CBlock) (s : ChainState Tree) : Option (ChainState Tree) :=
  match connectBlock R (tipIndex s.chain) block s.view with
  | .error _ => none
  | .ok a => some {
      view := a.view
      index := s.index.connect R.toIndexRules a.delta
      undoFiles := storeUndo K checksum (block::s.chain) s.view.bestBlock a.undo s.undoFiles
      chain := block::s.chain}

/-- `DisconnectBlock` without `pfClean`: it fails unless the undo data fit. -/
def disconnectTip (s : ChainState Tree) : Option (ChainState Tree) :=
  match s.chain with
  | [] => none
  | block::rest =>
      match tipIndex rest,s.undoFiles (block::rest) with
      | some p,some file =>
          match disconnectFromDisk R K checksum p block file s.view with
          | none => none
          | some d =>
              if d.fClean then some {
                view := d.view
                index := s.index.disconnect R.toIndexRules d.delta
                undoFiles := s.undoFiles
                chain := rest}
              else none
      | _,_ => none

def chainStep (s : ChainState Tree) : ChainOp → Option (ChainState Tree)
  | .connect block => connectTip R K checksum block s
  | .disconnect => disconnectTip R K checksum s

/-- Before the genesis block: no coins, no index entries, and the empty tree. -/
def ChainState.start (T : TreeOps Tree) (emptyTree : Tree) (sproutRoot : Uint256) :
    ChainState Tree where
  view := {
    coins := fun _ => none
    nullifiers := fun _ => false
    anchors := Function.update (fun _ => none) T.emptyRoot (some emptyTree)
    bestSaplingAnchor := T.emptyRoot
    bestSproutAnchor := sproutRoot
    bestBlock := 0}
  index := ⟨fun _ => none,fun _ => none,fun _ => none⟩
  undoFiles := fun _ => none
  chain := []

variable {R K checksum}

theorem connectTip_some {block : CBlock} {s s' : ChainState Tree}
    (h : connectTip R K checksum block s=some s') :
    ∃a,connectBlock R (tipIndex s.chain) block s.view=.ok a ∧ s'.view=a.view ∧
      s'.index=s.index.connect R.toIndexRules a.delta ∧
      s'.undoFiles=storeUndo K checksum (block::s.chain) s.view.bestBlock a.undo s.undoFiles ∧
      s'.chain=block::s.chain := by
  unfold connectTip at h
  split at h
  · cases h
  · rename_i a ha
    obtain rfl := Option.some.inj h
    exact ⟨a,ha,rfl,rfl,rfl,rfl⟩

theorem disconnectTip_some {s s' : ChainState Tree} (h : disconnectTip R K checksum s=some s') :
    ∃block p file d,s.chain=block::s'.chain ∧ tipIndex s'.chain=some p ∧
      s.undoFiles s.chain=some file ∧
      disconnectFromDisk R K checksum p block file s.view=some d ∧ d.fClean=true ∧
      s'.view=d.view ∧ s'.index=s.index.disconnect R.toIndexRules d.delta ∧
      s'.undoFiles=s.undoFiles := by
  unfold disconnectTip at h
  split at h
  · cases h
  · rename_i block rest hchain
    split at h
    · rename_i p file hp hfile
      split at h
      · cases h
      · rename_i d hd
        split_ifs at h with hclean
        obtain rfl := Option.some.inj h
        exact ⟨block,p,file,d,hchain,hp,by rw [hchain,hfile],hd,hclean,rfl,rfl,rfl⟩
    · cases h

theorem disconnectFromDisk_some {p : CBlockIndex} {block : CBlock} {file : List Byte}
    {v : View Tree} {d : DisconnectState Tree}
    (h : disconnectFromDisk R K checksum p block file v=some d) :
    ∃undo,undoReadFromDisk K checksum p.hashBlock file=some undo ∧
      disconnectBlock R p block undo v=some d := by
  unfold disconnectFromDisk at h
  split at h
  · cases h
  · rename_i undo hundo
    exact ⟨undo,hundo,h⟩

variable (R K checksum) in
theorem disconnectTip_eq {s : ChainState Tree} {block : CBlock} {rest : List CBlock}
    {p : CBlockIndex} {undo : CBlockUndo} {d : DisconnectState Tree} (hchain : s.chain=block::rest)
    (hp : tipIndex rest=some p)
    (hfile : s.undoFiles (block::rest)=some (undoWriteToDisk K checksum p.hashBlock undo))
    (hundo : undo.Storable) (hd : disconnectBlock R p block undo s.view=some d)
    (hclean : d.fClean=true) :
    disconnectTip R K checksum s=some ⟨d.view,s.index.disconnect R.toIndexRules d.delta,
      s.undoFiles,rest⟩ := by
  have hdisk : disconnectFromDisk R K checksum p block
      (undoWriteToDisk K checksum p.hashBlock undo) s.view=some d := by
    rw [disconnectFromDisk,undoReadFromDisk_undoWriteToDisk K checksum p.hashBlock hundo]
    exact hd
  unfold disconnectTip
  rw [hchain]
  dsimp only
  rw [hp,hfile]
  dsimp only
  rw [hdisk]
  dsimp only
  rw [if_pos hclean]

theorem tipIndex_cons_some {chain : List CBlock} {p : CBlockIndex} (h : tipIndex chain=some p) :
    p.nHeight+1=chain.length := by
  cases chain with
  | nil => cases h
  | cons block rest =>
    obtain rfl := Option.some.inj h
    simp

theorem childHeight_tipIndex (chain : List CBlock) : childHeight (tipIndex chain)=chain.length := by
  cases chain with
  | nil => rfl
  | cons block rest => simp [tipIndex,childHeight]

end Steps

end Zdeex.Block
