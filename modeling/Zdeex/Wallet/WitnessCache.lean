import Zdeex.Framework.OrderedMap
import Zdeex.Framework.Outcome
import Zdeex.Framework.Run
import Zdeex.Merkle.TreeSize

namespace Zdeex.Wallet.WitnessCache

open Zdeex.Framework
open Zdeex.Merkle (HashClass IncrementalMerkleTree IncrementalWitness)

def SAPLING_INCREMENTAL_MERKLE_TREE_DEPTH : Nat := 32

abbrev SaplingMerkleTree := IncrementalMerkleTree Uint256

abbrev SaplingWitness := IncrementalWitness Uint256

/-- How a call can end without returning: the first two are the dereferenced empty optional
and `front` of an empty list. -/
inductive Fault where
  | noNullifier
  | noWitness
  | noBlock
  | badRead
  | treeIsFull
  | assertion
  | outOfRange
  deriving DecidableEq

structure OutputDescription where
  cm : Uint256
  ephemeralKey : Uint256
  encCiphertext : List (BitVec 8)

/-- Blocks and transactions go by their hashes, and this is what the hashes stand for. -/
structure Ledger (H : Type) where
  vtx : H → List H
  vShieldedOutput : H → List OutputDescription

structure CBlockIndex (H : Type) where
  hash : H
  hashFinalSaplingRoot : Uint256

structure SaplingOutPoint (H : Type) where
  hash : H
  n : Nat
  deriving DecidableEq

/-- `K` are the incoming viewing keys. Newest witness first. -/
structure SaplingNoteData (K : Type) where
  witnesses : List SaplingWitness
  witnessHeight : Int
  ivk : K
  nullifier : Option Uint256
  witnessRootValidated : Bool

/-- The map of the notes in the order of their outpoints; `none` is the null hash and the
index -1. -/
structure CWalletTx (H K : Type) where
  hash : H
  hashBlock : Option H
  nIndex : Option Nat
  mapSaplingNoteData : List (SaplingOutPoint H × SaplingNoteData K)

/-- `A` are payment addresses, `F` full viewing keys. -/
structure CWallet (H K A F : Type) where
  mapWallet : List (H × CWalletTx H K)
  mapSaplingFullViewingKeys : List (K × F)
  mapSaplingIncomingViewingKeys : List (A × K)

def CWallet.empty {H K A F : Type} : CWallet H K A F := ⟨[],[],[]⟩

/-- What the wallet takes from note encryption; `nullifier` is the note of a plaintext
followed by its nullifier at a position. -/
structure NoteCrypto (K A F P : Type) where
  decrypt : List (BitVec 8) → K → Uint256 → Uint256 → Option P
  address : K → P → Option A
  nullifier : P → K → F → BitVec 64 → Option Uint256

/-- The node around the wallet at the time of a call. -/
structure Node (H : Type) where
  chainActive : List (CBlockIndex H)
  getSaplingAnchorAt : Uint256 → Option SaplingMerkleTree
  getSaplingSpendDepth : Uint256 → Nat
  readable : H → Bool
  interrupted : H → Bool
  MAX_REORG_LENGTH : Nat
  HUSH_REWIND : Int

def Node.WITNESS_CACHE_SIZE {H : Type} (N : Node H) : Nat := N.MAX_REORG_LENGTH+10

def _COINBASE_MATURITY : Nat := 100

section Notes

variable {H K A F P : Type} [LinearOrder H] [LinearOrder K] [LinearOrder A]
variable (C : NoteCrypto K A F P) (L : Ledger H)

/-- `m[k]=v`. -/
def assign {X V : Type} [LinearOrder X] (k : X) (v : V) (m : List (X × V)) : List (X × V) :=
  OrderedMap.insertNew k v (m.filter fun e => decide (e.1≠k))

def OutputDescription.decrypt (output : OutputDescription) (ivk : K) : Option P :=
  C.decrypt output.encCiphertext ivk output.ephemeralKey output.cm

/-- The keys under which an output decrypts: the first full viewing key, else the first
incoming viewing key. With the address that is new to the wallet. -/
def findNote (w : CWallet H K A F) (output : OutputDescription) : Option K × Option (A × K) :=
  match w.mapSaplingFullViewingKeys.findSome? fun e =>
      (output.decrypt C e.1).map fun plaintext => (e.1,plaintext) with
  | some (ivk,plaintext) =>
      (some ivk,((C.address ivk plaintext).filter fun a =>
        (w.mapSaplingIncomingViewingKeys.lookup a).isNone).map fun a => (a,ivk))
  | none =>
      (w.mapSaplingIncomingViewingKeys.findSome? fun e =>
        (output.decrypt C e.2).map fun _ => e.2,none)

/-- The data of a new note; the constructor leaves the flag as it finds the memory. -/
def SaplingNoteData.new (stray : Bool) (ivk : K) : SaplingNoteData K := ⟨[],-1,ivk,none,stray⟩

def findMySaplingNotes (w : CWallet H K A F) (stray : Bool) (tx : H) :
    List (SaplingOutPoint H × SaplingNoteData K) × List (A × K) :=
  let found := (L.vShieldedOutput tx).zipIdx.map fun e => (e.2,findNote C w e.1)
  (found.filterMap fun e => e.2.1.map fun ivk => (⟨tx,e.1⟩,.new stray ivk),
    (found.filterMap fun e => e.2.2).foldl (fun m e => assign e.1 e.2 m) [])

/-- One note in `UpdateSaplingNullifierNoteMapWithTx`. -/
def updateNullifier (w : CWallet H K A F) (tx : H)
    (e : SaplingOutPoint H × SaplingNoteData K) :
    Except Fault (SaplingOutPoint H × SaplingNoteData K) :=
  match e.2.witnesses with
  | [] => .ok (e.1,{e.2 with nullifier := none})
  | witness::_ =>
      match w.mapSaplingFullViewingKeys.lookup e.2.ivk with
      | none => .ok e
      | some fvk =>
          match (L.vShieldedOutput tx)[e.1.n]? with
          | none => .error .outOfRange
          | some output =>
              match (output.decrypt C e.2.ivk).bind fun plaintext =>
                  C.nullifier plaintext e.2.ivk fvk witness.position with
              | none => .error .assertion
              | some nullifier => .ok (e.1,{e.2 with nullifier := some nullifier})

def updateSaplingNullifierNoteMapWithTx (w : CWallet H K A F) (wtx : CWalletTx H K) :
    Except Fault (CWalletTx H K) := do
  let notes ← wtx.mapSaplingNoteData.mapM (updateNullifier C L w wtx.hash)
  return {wtx with mapSaplingNoteData := notes}

end Notes

section Witnesses

variable {H K A F P : Type} [LinearOrder H] [LinearOrder K] [LinearOrder A]
variable (C : NoteCrypto K A F P) (O : HashClass Uint256) (L : Ledger H) (N : Node H)

def SaplingNoteData.clear (nd : SaplingNoteData K) : SaplingNoteData K :=
  {nd with witnesses := [],witnessHeight := -1,witnessRootValidated := false}

def deref {V : Type} (o : Option V) : Except Fault V :=
  match o with
  | some v => .ok v
  | none => .error .noNullifier

def front {V : Type} (l : List V) : Except Fault V :=
  match l with
  | v::_ => .ok v
  | [] => .error .noWitness

/-- `chainActive[nHeight]`, used as a pointer. -/
def Node.blockAt (nHeight : Int) : Except Fault (CBlockIndex H) :=
  match if nHeight<0 then none else N.chainActive[nHeight.toNat]? with
  | some b => .ok b
  | none => .error .noBlock

/-- The height of the block that a transaction is confirmed in: `GetDepthInMainChain` is
positive then. The Merkle branch is replaced by what it shows. -/
def Node.heightOf (wtx : CWalletTx H K) : Option Nat :=
  match wtx.hashBlock,wtx.nIndex with
  | some hashBlock,some nIndex =>
      if (L.vtx hashBlock)[nIndex]?=some wtx.hash then
        N.chainActive.findIdx? fun b => decide (b.hash=hashBlock)
      else none
  | _,_ => none

def appendTree (t : SaplingMerkleTree) (cm : Uint256) : Except Fault SaplingMerkleTree :=
  match t.append O SAPLING_INCREMENTAL_MERKLE_TREE_DEPTH cm with
  | (.ok _,t) => .ok t
  | (.error _,_) => .error .treeIsFull

def appendWitness (w : SaplingWitness) (cm : Uint256) : Except Fault SaplingWitness :=
  match w.append O SAPLING_INCREMENTAL_MERKLE_TREE_DEPTH cm with
  | (.ok _,w) => .ok w
  | (.error _,_) => .error .treeIsFull

def rootOf (w : SaplingWitness) : Uint256 := w.root O SAPLING_INCREMENTAL_MERKLE_TREE_DEPTH

/-- `witnesses.front().append(cm)`. -/
def appendFront (witnesses : List SaplingWitness) (cm : Uint256) :
    Except Fault (List SaplingWitness) := do
  let w ← front witnesses
  let w ← appendWitness O w cm
  return w::witnesses.tail

/-- An output of the block in which the note `op` is to be found. -/
def scanOutput (op : SaplingOutPoint H) (tx : H) (s : SaplingMerkleTree × List SaplingWitness)
    (e : OutputDescription × Nat) : Except Fault (SaplingMerkleTree × List SaplingWitness) :=
  if s.2≠[] then do
    let witnesses ← appendFront O s.2 e.1.cm
    return (s.1,witnesses)
  else do
    let tree ← appendTree O s.1 e.1.cm
    return (tree,if op=⟨tx,e.2⟩ then [tree.witness] else [])

def scanTx (op : SaplingOutPoint H) (s : SaplingMerkleTree × List SaplingWitness) (tx : H) :
    Except Fault (SaplingMerkleTree × List SaplingWitness) :=
  (L.vShieldedOutput tx).zipIdx.foldlM (scanOutput O op tx) s

def scanBlock (op : SaplingOutPoint H) (block : H) (saplingTree : SaplingMerkleTree) :
    Except Fault (SaplingMerkleTree × List SaplingWitness) :=
  (L.vtx block).foldlM (scanTx O L op) (saplingTree,[])

def saplingWitnessMinimumHeight (nullifier : Uint256) (nWitnessHeight nMinimumHeight : Int) : Int :=
  if N.getSaplingSpendDepth nullifier≤N.WITNESS_CACHE_SIZE then min nWitnessHeight nMinimumHeight
  else nMinimumHeight

/-- The tests on a cached witness: the note and the minimum height, or `none` when the
witness has to be set anew. -/
def checkWitness (height : Int) (witnessOnly : Bool) (nd : SaplingNoteData K)
    (nMinimumHeight : Int) : Except Fault (Option (SaplingNoteData K × Int)) :=
  if nd.witnesses≠[] ∧ 0<nd.witnessHeight then
    if nd.witnessRootValidated && witnessOnly then return some (nd,nMinimumHeight)
    else if nd.witnessRootValidated then do
      let nullifier ← deref nd.nullifier
      return some (nd,saplingWitnessMinimumHeight N nullifier nd.witnessHeight nMinimumHeight)
    else if height-1<nd.witnessHeight then do
      let nullifier ← deref nd.nullifier
      return some (nd,saplingWitnessMinimumHeight N nullifier nd.witnessHeight nMinimumHeight)
    else do
      let witness ← front nd.witnesses
      let pblockindex ← N.blockAt nd.witnessHeight
      if rootOf O witness=pblockindex.hashFinalSaplingRoot then do
        let nullifier ← deref nd.nullifier
        return some ({nd with witnessRootValidated := true},
          saplingWitnessMinimumHeight N nullifier nd.witnessHeight nMinimumHeight)
      else return none
  else return none

/-- The witness at the end of the block that the note is in. An anchor that is missing
leaves the empty tree. -/
def setInitialWitness (op : SaplingOutPoint H) (wtxHeight : Nat) (nd : SaplingNoteData K) :
    Except Fault (SaplingNoteData K) := do
  let pblockindex ← N.blockAt wtxHeight
  let pprev ← N.blockAt ((wtxHeight : Int)-1)
  let saplingTree := (N.getSaplingAnchorAt pprev.hashFinalSaplingRoot).getD .new
  if N.readable pblockindex.hash then do
    let s ← scanBlock O L op pblockindex.hash saplingTree
    return {nd.clear with witnesses := s.2,witnessHeight := wtxHeight}
  else .error .badRead

def CWalletTx.setNote (wtx : CWalletTx H K) (j : Nat)
    (e : SaplingOutPoint H × SaplingNoteData K) : CWalletTx H K :=
  {wtx with mapSaplingNoteData := wtx.mapSaplingNoteData.set j e}

/-- The body of the note loop of `VerifyAndSetInitialWitness`, for the `j`-th note. -/
def verifyNote (w : CWallet H K A F) (height : Int) (witnessOnly : Bool) (wtxHeight : Nat)
    (s : CWalletTx H K × Int) (j : Nat) : Except Fault (CWalletTx H K × Int) :=
  match s.1.mapSaplingNoteData[j]? with
  | none => return s
  | some (op,found) => do
      let nd := if found.nullifier.isNone then found.clear else found
      match ← checkWitness O N height witnessOnly nd s.2 with
      | some (nd,nMinimumHeight) => return (s.1.setNote j (op,nd),nMinimumHeight)
      | none =>
          let nd ← setInitialWitness O L N op wtxHeight nd
          let wtx ← updateSaplingNullifierNoteMapWithTx C L w (s.1.setNote j (op,nd))
          let nullifier ← deref ((wtx.mapSaplingNoteData[j]?).bind fun e => e.2.nullifier)
          return (wtx,saplingWitnessMinimumHeight N nullifier nd.witnessHeight s.2)

def verifyTx (w : CWallet H K A F) (height : Int) (witnessOnly : Bool)
    (wtx : CWalletTx H K) (nMinimumHeight : Int) : Except Fault (CWalletTx H K × Int) :=
  match N.heightOf L wtx with
  | none => return (wtx,nMinimumHeight)
  | some wtxHeight =>
      (List.range wtx.mapSaplingNoteData.length).foldlM
        (verifyNote C O L N w height witnessOnly wtxHeight) (wtx,nMinimumHeight)

/-- The loop over the wallet. -/
def verifyLoop (w : CWallet H K A F) (height : Int) (witnessOnly : Bool) :
    List (H × CWalletTx H K) → Int → Except Fault (List (H × CWalletTx H K) × Int)
  | [],nMinimumHeight => return ([],nMinimumHeight)
  | (k,wtx)::mapWallet,nMinimumHeight => do
      let (wtx,nMinimumHeight) ← verifyTx C O L N w height witnessOnly wtx nMinimumHeight
      let (mapWallet,nMinimumHeight) ← verifyLoop w height witnessOnly mapWallet nMinimumHeight
      return ((k,wtx)::mapWallet,nMinimumHeight)

def verifyAndSetInitialWitness (height : Int) (witnessOnly : Bool) (w : CWallet H K A F) :
    Except Fault (CWallet H K A F × Int) := do
  let (mapWallet,nMinimumHeight) ← verifyLoop C O L N w height witnessOnly w.mapWallet height
  return ({w with mapWallet := mapWallet},nMinimumHeight)

/-- The commitments of a block in order. -/
def Ledger.commitments (block : H) : List Uint256 :=
  (L.vtx block).flatMap fun tx => (L.vShieldedOutput tx).map OutputDescription.cm

/-- One note in the block loop of `BuildWitnessCache`. -/
def extendNote (block : H) (nHeight : Int) (nd : SaplingNoteData K) :
    Except Fault (SaplingNoteData K) :=
  match nd.nullifier with
  | none => return nd
  | some nullifier =>
      if nd.witnessHeight=nHeight-1 ∧ N.getSaplingSpendDepth nullifier≤N.WITNESS_CACHE_SIZE then do
        let witness ← front nd.witnesses
        let witnesses ← (L.commitments block).foldlM (appendFront O)
          ((witness::nd.witnesses).take N.WITNESS_CACHE_SIZE)
        return {nd with witnesses := witnesses,witnessHeight := nHeight}
      else return nd

def extendTx (block : H) (nHeight : Int) (wtx : CWalletTx H K) : Except Fault (CWalletTx H K) :=
  if (N.heightOf L wtx).isSome then do
    let notes ← wtx.mapSaplingNoteData.mapM fun e => do
      let nd ← extendNote O L N block nHeight e.2
      return (e.1,nd)
    return {wtx with mapSaplingNoteData := notes}
  else return wtx

/-- The `while` loop from the block at `nHeight` on. -/
def buildLoop (pindex : H) : List (CBlockIndex H) → Nat → List (H × CWalletTx H K) →
    Except Fault (List (H × CWalletTx H K))
  | [],_,mapWallet => return mapWallet
  | pblockindex::rest,nHeight,mapWallet =>
      if N.interrupted pblockindex.hash then return mapWallet
      else if nHeight=0 then .error .noBlock
      else if N.readable pblockindex.hash then do
        let mapWallet ← mapWallet.mapM fun e => do
          let wtx ← extendTx O L N pblockindex.hash nHeight e.2
          return (e.1,wtx)
        if pblockindex.hash=pindex then return mapWallet
        else buildLoop pindex rest (nHeight+1) mapWallet
      else .error .badRead

def buildWitnessCache (pindex : H) (height : Int) (witnessOnly : Bool) (w : CWallet H K A F) :
    Except Fault (CWallet H K A F) := do
  let (w,nMinimumHeight) ← verifyAndSetInitialWitness C O L N height witnessOnly w
  let startHeight := nMinimumHeight+1
  if height<startHeight || witnessOnly || startHeight<0 then return w
  else do
    let mapWallet ← buildLoop O L N pindex (N.chainActive.drop startHeight.toNat) startHeight.toNat
      w.mapWallet
    return {w with mapWallet := mapWallet}

/-- One note in `DecrementNoteWitnesses`. -/
def decrementNote (height : Int) (nd : SaplingNoteData K) : SaplingNoteData K :=
  match nd.nullifier with
  | none => nd
  | some nullifier =>
      if N.getSaplingSpendDepth nullifier≤N.WITNESS_CACHE_SIZE ∧ nd.witnessHeight≤height ∧
          1<nd.witnesses.length then
        {nd with witnesses := nd.witnesses.tail,witnessHeight := height-1}
      else nd

def CWallet.mapNotes (f : SaplingNoteData K → SaplingNoteData K) (w : CWallet H K A F) :
    CWallet H K A F :=
  {w with mapWallet := w.mapWallet.map fun e =>
    (e.1,{e.2 with mapSaplingNoteData := e.2.mapSaplingNoteData.map fun n => (n.1,f n.2)})}

def decrementNoteWitnesses (height : Int) (w : CWallet H K A F) : Except Fault (CWallet H K A F) :=
  if N.HUSH_REWIND≠0 ∨ N.WITNESS_CACHE_SIZE≠_COINBASE_MATURITY+10 then
    return w.mapNotes (decrementNote N height)
  else .error .assertion

/-- `mapWallet[hash]` is updated if the transaction is in the wallet. -/
def updateWalletTx (w : CWallet H K A F) (hash : H) : Except Fault (CWallet H K A F) := do
  let mapWallet ← w.mapWallet.mapM fun e =>
    if e.1=hash then do
      let wtx ← updateSaplingNullifierNoteMapWithTx C L w e.2
      return (e.1,wtx)
    else return e
  return {w with mapWallet := mapWallet}

def updateNullifierNoteMapForBlock (block : H) (w : CWallet H K A F) :
    Except Fault (CWallet H K A F) :=
  (L.vtx block).foldlM (updateWalletTx C L) w

end Witnesses
section Events

variable {H K A F P : Type} [LinearOrder H] [LinearOrder K] [LinearOrder A]
variable (C : NoteCrypto K A F P) (O : HashClass Uint256) (L : Ledger H)

/-- `operator==` of the note data looks at three fields. -/
def sameNotes (a b : List (SaplingOutPoint H × SaplingNoteData K)) : Bool :=
  decide (a.map (fun e => (e.1,e.2.ivk,e.2.nullifier,e.2.witnessHeight))=
    b.map fun e => (e.1,e.2.ivk,e.2.nullifier,e.2.witnessHeight))

/-- The loop of `UpdatedNoteData`: cached witnesses and heights are kept, and `at` throws for
a note that is not in the new data. -/
def keepWitnesses (tmp : List (SaplingOutPoint H × SaplingNoteData K)) :
    List (SaplingOutPoint H × SaplingNoteData K) →
      Except Fault (List (SaplingOutPoint H × SaplingNoteData K))
  | [] => return tmp
  | (op,nd)::rest =>
      if op∈tmp.map Prod.fst then
        keepWitnesses (tmp.map fun e => if e.1=op then
          (op,({e.2 with
            witnesses := if nd.witnesses≠[] then nd.witnesses else e.2.witnesses
            witnessHeight := nd.witnessHeight} : SaplingNoteData K)) else e) rest
      else .error .outOfRange

def updatedNoteData (wtxIn wtx : CWalletTx H K) :
    Except Fault (List (SaplingOutPoint H × SaplingNoteData K)) :=
  if wtxIn.mapSaplingNoteData.isEmpty ||
      sameNotes wtxIn.mapSaplingNoteData wtx.mapSaplingNoteData then
    return wtx.mapSaplingNoteData
  else keepWitnesses wtxIn.mapSaplingNoteData wtx.mapSaplingNoteData

def addToWallet (wtxIn : CWalletTx H K) (w : CWallet H K A F) : Except Fault (CWallet H K A F) :=
  match w.mapWallet.lookup wtxIn.hash with
  | none => return {w with mapWallet := OrderedMap.insertNew wtxIn.hash wtxIn w.mapWallet}
  | some wtx => do
      let notes ← updatedNoteData wtxIn wtx
      let merged := {wtx with
        hashBlock := wtxIn.hashBlock.or wtx.hashBlock
        nIndex := wtxIn.nIndex.or wtx.nIndex
        mapSaplingNoteData := notes}
      return {w with mapWallet := w.mapWallet.map fun e =>
        if e.1=wtxIn.hash then (e.1,merged) else e}

/-- What else decides whether a transaction is added: an empty coinbase never is, one that
pays or spends coins of the wallet is, and the allow list of a notary refuses some. -/
structure Involvement where
  emptyCoinbase : Bool
  mine : Bool
  refused : Bool

def addToWalletIfInvolvingMe (tx : H) (pblock : Option H) (i : Involvement) (stray : Bool)
    (w : CWallet H K A F) : Except Fault (CWallet H K A F) :=
  if i.emptyCoinbase then return w
  else
    let found := findMySaplingNotes C L w stray tx
    let keys := found.2.foldl (fun m e => assign e.1 e.2 m) w.mapSaplingIncomingViewingKeys
    let w := {w with mapSaplingIncomingViewingKeys := keys}
    if ((w.mapWallet.lookup tx).isSome || i.mine || !found.1.isEmpty) && !i.refused then
      addToWallet ⟨tx,pblock,pblock.bind fun b => (L.vtx b).idxOf? tx,found.1⟩ w
    else return w

def clearNoteWitnessCache : CWallet H K A F → CWallet H K A F :=
  CWallet.mapNotes fun nd => {nd with witnesses := [],witnessHeight := -1}

/-- The calls that touch the notes of the wallet. -/
inductive Event (H K A F : Type) where
  | addFullViewingKey (ivk : K) (fvk : F)
  | addIncomingViewingKey (address : A) (ivk : K)
  | syncTransaction (tx : H) (pblock : Option H) (i : Involvement) (stray : Bool)
  | connected (N : Node H) (pindex : H) (height : Nat) (witnessOnly : Bool)
  | disconnected (N : Node H) (pblock : H) (height : Nat)
  | clearNoteWitnessCache
  | eraseFromWallet (hash : H)

/-- `ChainTip` with and without added trees is `connected` and `disconnected`. -/
def step (w : CWallet H K A F) : Event H K A F → Except Fault (CWallet H K A F)
  | .addFullViewingKey ivk fvk =>
      return {w with mapSaplingFullViewingKeys := assign ivk fvk w.mapSaplingFullViewingKeys}
  | .addIncomingViewingKey address ivk =>
      return {w with
        mapSaplingIncomingViewingKeys := assign address ivk w.mapSaplingIncomingViewingKeys}
  | .syncTransaction tx pblock i stray => addToWalletIfInvolvingMe C L tx pblock i stray w
  | .connected N pindex height witnessOnly => buildWitnessCache C O L N pindex height witnessOnly w
  | .disconnected N pblock height => do
      let w ← decrementNoteWitnesses N height w
      updateNullifierNoteMapForBlock C L pblock w
  | .clearNoteWitnessCache => return clearNoteWitnessCache w
  | .eraseFromWallet hash =>
      return {w with mapWallet := w.mapWallet.filter fun e => decide (e.1≠hash)}

def run (events : List (Event H K A F)) (w : CWallet H K A F) : Except Fault (CWallet H K A F) :=
  events.foldlM (step C O L) w

end Events

end Zdeex.Wallet.WitnessCache
