import Mathlib.Data.List.DropRight
import Mathlib.Logic.Function.Basic
import Zdeex.Block.Undo

namespace Zdeex.Coins.CCoins

open Zdeex.Block

def clearUnspendable (c : CCoins) : CCoins :=
  cleanup {c with
    vout := c.vout.map fun txout => if isUnspendable txout.scriptPubKey then CTxOut.setNull else txout}

def fromTx (tx : CTransaction) (nHeightIn : Int) : CCoins :=
  clearUnspendable ⟨tx.isCoinBase,tx.vout,nHeightIn,tx.nVersion⟩

/-- `Spend` of an output that is available. -/
def spend (c : CCoins) (nPos : Nat) : CCoins :=
  cleanup {c with vout := c.vout.set nPos CTxOut.setNull}

/-- `operator==`: pruned entries are all equal. -/
def same (a b : CCoins) : Bool := (a.isPruned && b.isPruned) || a==b

end Zdeex.Coins.CCoins

namespace Zdeex.Block

open Zdeex.Coins

/-- The note commitment tree as the block code uses it; `none` is a full tree. -/
structure TreeOps (Tree : Type) where
  root : Tree → Uint256
  append : Tree → Uint256 → Option Tree
  emptyRoot : Uint256

/-- A coins view as its readers see it: the plain maps that stacks of caches
refine. -/
structure View (Tree : Type) where
  coins : Uint256 → Option CCoins
  nullifiers : Uint256 → Bool
  anchors : Uint256 → Option Tree
  bestSaplingAnchor : Uint256
  bestSproutAnchor : Uint256
  bestBlock : Uint256

namespace View

variable {Tree : Type} (T : TreeOps Tree)

/-- A missing entry is read and edited as the empty one. -/
def entry (v : View Tree) (txid : Uint256) : CCoins := (v.coins txid).getD CCoins.clear

/-- `ModifyCoins`, an edit through the modifier, and its destruction. -/
def modifyCoins (txid : Uint256) (edit : CCoins → CCoins) (v : View Tree) : View Tree :=
  {v with coins := Function.update v.coins txid (some (edit (v.entry txid)).cleanup)}

def haveCoins (v : View Tree) (txid : Uint256) : Bool := !(v.entry txid).vout.isEmpty

/-- `GetOutputFor`; `none` is the assertion that the output is available. -/
def getOutputFor (v : View Tree) (prevout : COutPoint) : Option CTxOut :=
  (v.entry prevout.hash).unspentOutput prevout.n

def setNullifiers (tx : CTransaction) (spent : Bool) (v : View Tree) : View Tree :=
  {v with nullifiers := fun nf =>
    if nf∈tx.vShieldedSpend.map SpendDescription.nullifier then spent else v.nullifiers nf}

def pushAnchor (tree : Tree) (v : View Tree) : View Tree :=
  if v.bestSaplingAnchor=T.root tree then v
  else {v with
    anchors := Function.update v.anchors (T.root tree) (some tree)
    bestSaplingAnchor := T.root tree}

/-- `PopAnchor` of the Sapling anchors; the current one must be found. -/
def popAnchor (newrt : Uint256) (v : View Tree) : Option (View Tree) :=
  if v.bestSaplingAnchor=newrt then some v
  else
    match v.anchors v.bestSaplingAnchor with
    | none => none
    | some _ => some {v with
        anchors := Function.update v.anchors v.bestSaplingAnchor none
        bestSaplingAnchor := newrt}

/-- Sprout trees are no longer pushed, so only the best root is kept. -/
def popSproutAnchor (newrt : Uint256) (v : View Tree) : View Tree :=
  {v with bestSproutAnchor := newrt}

/-- The inputs that are looked up: the first input of a Pegs import is not one. -/
def lookedUp (pegscc : Bool) (tx : CTransaction) : List CTxIn :=
  if tx.isMint then [] else if tx.isPegsImport pegscc then tx.vin.drop 1 else tx.vin

def haveInputs (pegscc : Bool) (tx : CTransaction) (v : View Tree) : Bool :=
  (lookedUp pegscc tx).all fun txin => (v.entry txin.prevout.hash).isAvailable txin.prevout.n

def haveShieldedRequirements (tx : CTransaction) (v : View Tree) : Bool :=
  tx.vShieldedSpend.all fun spend => !v.nullifiers spend.nullifier && (v.anchors spend.anchor).isSome

end View

section Update

variable {Tree : Type} (pegscc : Bool)

/-- The undo record of an output that is spent: `c` is the entry before and `c'`
the one after. -/
def undoRecord (c c' : CCoins) (txout : CTxOut) : CTxInUndo :=
  if c'.vout=[] then ⟨txout,c.fCoinBase,(c.nHeight%2^32).toNat,c.nVersion⟩ else ⟨txout,false,0,0⟩

/-- The loop of `UpdateCoins` over the inputs; `none` is the assertion that the
output is there. -/
def spendInputs : List CTxIn → View Tree → Option (View Tree × List CTxInUndo)
  | [],v => some (v,[])
  | txin::rest,v =>
      let c := v.entry txin.prevout.hash
      match c.unspentOutput txin.prevout.n with
      | none => none
      | some txout =>
          match spendInputs rest
              (v.modifyCoins txin.prevout.hash fun c => c.spend txin.prevout.n) with
          | none => none
          | some (v',undos) => some (v',undoRecord c (c.spend txin.prevout.n) txout::undos)

def burnHash (tx : CTransaction) : Uint256 :=
  match tx.vin with
  | [] => 0
  | txin::_ => txin.prevout.hash

/-- The fake coin that marks a burn as imported. -/
def tombstone : CTxOut := ⟨0,[0]⟩

def addImportTombstone (importTx : CTransaction) (nHeight : Int) (v : View Tree) : View Tree :=
  v.modifyCoins (burnHash importTx) fun c =>
    {c with nHeight := nHeight,nVersion := 4,vout := c.vout++[tombstone]}

def removeImportTombstone (importTx : CTransaction) (v : View Tree) : View Tree :=
  v.modifyCoins (burnHash importTx) fun _ => CCoins.clear

def existsImportTombstone (importTx : CTransaction) (v : View Tree) : Bool :=
  v.haveCoins (burnHash importTx)

/-- The inputs that `UpdateCoins` spends: in a Pegs import every input with the
marker is passed over. -/
def spentInputs (tx : CTransaction) : List CTxIn :=
  if tx.isMint then []
  else tx.vin.filter fun txin =>
    !(tx.isPegsImport pegscc && txin.prevout.n==CTransaction.importMarker)

/-- Nullifiers and outputs of a transaction, and the tombstone of an import. -/
def addOutputs (tx : CTransaction) (nHeight : Int) (v : View Tree) : View Tree :=
  let v := (v.setNullifiers tx true).modifyCoins tx.hash fun _ => CCoins.fromTx tx nHeight
  if tx.isCoinImport || tx.isPegsImport pegscc then addImportTombstone tx nHeight v else v

def updateCoins (tx : CTransaction) (nHeight : Int) (v : View Tree) :
    Option (View Tree × CTxUndo) :=
  match spendInputs (spentInputs pegscc tx) v with
  | none => none
  | some (v,undos) => some (addOutputs pegscc tx nHeight v,⟨undos⟩)

/-- The edit of `ApplyTxInUndo`, and whether the entry was as expected. -/
def restoreOutput (undo : CTxInUndo) (n : Nat) (c : CCoins) : CCoins × Bool :=
  let c' := if undo.nHeight≠0 then ⟨undo.fCoinBase,[],undo.nHeight,undo.nVersion⟩ else c
  let fClean := (if undo.nHeight≠0 then c.isPruned else !c.isPruned) && !c'.isAvailable n
  let vout := c'.vout++List.replicate (n+1-c'.vout.length) CTxOut.setNull
  ({c' with vout := vout.set n undo.txout},fClean)

def applyTxInUndo (undo : CTxInUndo) (out : COutPoint) (v : View Tree) : View Tree × Bool :=
  (v.modifyCoins out.hash fun c => (restoreOutput undo out.n c).1,
    (restoreOutput undo out.n (v.entry out.hash)).2)

end Update

end Zdeex.Block
