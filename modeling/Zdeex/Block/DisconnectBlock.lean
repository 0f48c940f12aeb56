import Zdeex.Block.ConnectBlock

namespace Zdeex.Block

open Zdeex.Coins

section Disconnect

variable {Tree : Type} (R : BlockRules Tree)

/-- The locals of `DisconnectBlock` in its loop over the transactions. -/
structure DisconnectState (Tree : Type) where
  view : View Tree
  fClean : Bool
  delta : IndexDelta

/-- The entry is compared with what the block added, and removed. -/
def removeOutputs (nHeight : Int) (tx : CTransaction) (v : View Tree) : View Tree × Bool :=
  let outs := (v.entry tx.hash).clearUnspendable
  let outsBlock := CCoins.fromTx tx nHeight
  let outs := if outsBlock.nVersion<0 then {outs with nVersion := outsBlock.nVersion} else outs
  (v.modifyCoins tx.hash fun _ => CCoins.clear,outs.same outsBlock)

/-- Puts an input back; the output is read again for the address index. -/
def restoreInput (nHeight : Int) (i : Nat) (txhash : Uint256) (j : Nat) (prevout : COutPoint)
    (undo : CTxInUndo) (s : DisconnectState Tree) : Option (DisconnectState Tree) :=
  let restored := applyTxInUndo undo prevout s.view
  let out := restored.1.getOutputFor prevout
  if R.fAddressIndex ∧ out=none then none
  else some {
    view := restored.1
    fClean := s.fClean && restored.2
    delta := s.delta.append (unspendDelta R.toIndexRules nHeight i txhash j prevout
      (out.getD CTxOut.setNull) undo.nHeight)}

/-- The inputs from number `j` on, the last one first. -/
def restoreInputs (nHeight : Int) (i : Nat) (txhash : Uint256) : Nat →
    List (CTxIn × CTxInUndo) → DisconnectState Tree → Option (DisconnectState Tree)
  | _,[],s => some s
  | j,(txin,undo)::rest,s =>
      (restoreInputs nHeight i txhash (j+1) rest s).bind
        (restoreInput R nHeight i txhash j txin.prevout undo)

/-- The inputs that get a record: in a Pegs import a record without content is put in
front and passed over. -/
def undoneInputs (tx : CTransaction) (txundo : CTxUndo) : Option (Nat × List (CTxIn × CTxInUndo)) :=
  if tx.isPegsImport R.pegscc then
    if txundo.vprevout.length+1=tx.vin.length then
      some (1,(tx.vin.drop 1).zip txundo.vprevout)
    else none
  else if txundo.vprevout.length=tx.vin.length then some (0,tx.vin.zip txundo.vprevout)
  else none

/-- A mint has no inputs to restore, but the tombstone of a coin import is removed. -/
def undoInputs (nHeight : Int) (i : Nat) (tx : CTransaction) (txundo : CTxUndo)
    (s : DisconnectState Tree) : Option (DisconnectState Tree) :=
  if tx.isMint=false then
    match undoneInputs R tx txundo with
    | none => none
    | some (j,inputs) => restoreInputs R nHeight i tx.hash j inputs s
  else if tx.isCoinImport || tx.isPegsImport R.pegscc then
    some {s with view := removeImportTombstone tx s.view}
  else some s

def unreceiveDeltas (nHeight : Int) (i : Nat) (tx : CTransaction) : IndexDelta :=
  if R.fAddressIndex then
    IndexDelta.concat (tx.vout.zipIdx.reverse.map fun out =>
      unreceiveDelta R.toIndexRules nHeight i tx.hash out.2 out.1)
  else IndexDelta.empty

def disconnectTx (nHeight : Int) (i : Nat) (tx : CTransaction) (txundo : CTxUndo)
    (s : DisconnectState Tree) : Option (DisconnectState Tree) :=
  let removed := removeOutputs nHeight tx s.view
  undoInputs R nHeight i tx txundo {
    view := removed.1.setNullifiers tx false
    fClean := s.fClean && removed.2
    delta := s.delta.append (unreceiveDeltas R nHeight i tx)}

/-- The transactions from number `i` on, the last one first. -/
def disconnectTxs (nHeight : Int) : Nat → List (CTransaction × CTxUndo) → DisconnectState Tree →
    Option (DisconnectState Tree)
  | _,[],s => some s
  | i,(tx,txundo)::rest,s =>
      (disconnectTxs nHeight (i+1) rest s).bind (disconnectTx R nHeight i tx txundo)

/-- Before Sapling the last anchor was the empty root. -/
def parentAnchor (pprev : CBlockIndex) : Uint256 :=
  if R.saplingActive pprev.nHeight then pprev.hashFinalSaplingRoot else R.trees.emptyRoot

/-- `DisconnectBlock` with the undo data that was read; `none` is a failed assertion or
data that do not fit. -/
def disconnectBlock (pprev : CBlockIndex) (block : CBlock) (blockUndo : CBlockUndo)
    (v : View Tree) : Option (DisconnectState Tree) :=
  if block.hash=v.bestBlock ∧ blockUndo.vtxundo.length+1=block.vtx.length then
    match disconnectTxs R (pprev.nHeight+1) 0 (block.vtx.zip (⟨[]⟩::blockUndo.vtxundo))
        ⟨v,true,IndexDelta.empty⟩ with
    | none => none
    | some s =>
        match (s.view.popSproutAnchor blockUndo.oldSproutTreeRoot).popAnchor
            (parentAnchor R pprev) with
        | none => none
        | some view => some {s with view := {view with bestBlock := pprev.hashBlock}}
  else none

/-- `DisconnectBlock` with the undo data of the block's file. -/
def disconnectFromDisk (K : PubKeys) (checksum : Uint256 → List Framework.Byte → Uint256)
    (pprev : CBlockIndex) (block : CBlock) (file : List Framework.Byte) (v : View Tree) :
    Option (DisconnectState Tree) :=
  match undoReadFromDisk K checksum pprev.hashBlock file with
  | none => none
  | some blockUndo => disconnectBlock R pprev block blockUndo v

theorem popAnchor_some {newrt : Uint256} {v v' : View Tree} (h : v.popAnchor newrt=some v') :
    v'.coins=v.coins ∧ v'.nullifiers=v.nullifiers ∧ v'.bestSaplingAnchor=newrt := by
  unfold View.popAnchor at h
  split_ifs at h with hsame
  · obtain rfl := Option.some.inj h
    exact ⟨rfl,rfl,hsame⟩
  · split at h
    · cases h
    · obtain rfl := Option.some.inj h
      exact ⟨rfl,rfl,rfl⟩

/-- After its loop `DisconnectBlock` only sets the anchors and the best block. -/
theorem disconnectBlock_some {pprev : CBlockIndex} {block : CBlock} {blockUndo : CBlockUndo}
    {v : View Tree} {d : DisconnectState Tree}
    (h : disconnectBlock R pprev block blockUndo v=some d) :
    block.hash=v.bestBlock ∧ blockUndo.vtxundo.length+1=block.vtx.length ∧
      ∃s,disconnectTxs R (pprev.nHeight+1) 0 (block.vtx.zip (⟨[]⟩::blockUndo.vtxundo))
          ⟨v,true,IndexDelta.empty⟩=some s ∧
        d.fClean=s.fClean ∧ d.delta=s.delta ∧ (∀t,d.view.entry t=s.view.entry t) ∧
        d.view.nullifiers=s.view.nullifiers ∧ d.view.bestBlock=pprev.hashBlock := by
  unfold disconnectBlock at h
  split_ifs at h with hfit
  refine ⟨hfit.1,hfit.2,?_⟩
  split at h
  · cases h
  · rename_i s hs
    split at h
    · cases h
    · rename_i view hpop
      obtain rfl := Option.some.inj h
      obtain ⟨hcoins,hnf,-⟩ := popAnchor_some hpop
      refine ⟨s,hs,rfl,rfl,?_,hnf,rfl⟩
      intro t
      unfold View.entry
      rw [hcoins]
      rfl

end Disconnect

end Zdeex.Block
