import Zdeex.Merkle.WitnessTracks
import Zdeex.Wallet.AbsentNullifiers

namespace Zdeex.Wallet.WitnessCache

open Zdeex.Framework
open Zdeex.Merkle (HashClass IncrementalMerkleTree IncrementalWitness)

section Chain

variable {H K A F P : Type} [LinearOrder H]
variable (C : NoteCrypto K A F P) (O : HashClass Uint256) (L : Ledger H) (N : Node H)

/-- The height of a transaction in a chain, as `Node.heightOf` finds it in the active one. -/
def CWalletTx.confirmedIn (wtx : CWalletTx H K) (chain : List (CBlockIndex H)) : Option Nat :=
  wtx.hashBlock.bind fun hashBlock => wtx.nIndex.bind fun nIndex =>
    if (L.vtx hashBlock)[nIndex]?=some wtx.hash then
      chain.findIdx? fun b => decide (b.hash=hashBlock)
    else none

/-- The commitments of a chain in order. -/
def Ledger.leaves (chain : List (CBlockIndex H)) : List Uint256 :=
  chain.flatMap fun b => L.commitments b.hash

/-- The tree at the end of a chain. -/
def Ledger.saplingTree (chain : List (CBlockIndex H)) : SaplingMerkleTree :=
  (IncrementalMerkleTree.appendAll O SAPLING_INCREMENTAL_MERKLE_TREE_DEPTH .new
    (L.leaves chain)).2

/-- What block validation sees to: blocks and transactions stand once in a chain, the genesis
block has no shielded outputs, and the headers have the roots of the tree. -/
structure ValidChain (chain : List (CBlockIndex H)) : Prop where
  hashes : chain.Pairwise fun b b' => b.hash≠b'.hash
  transactions : chain.Pairwise fun b b' => ∀tx∈L.vtx b.hash,tx∉L.vtx b'.hash
  genesis : ∀b∈chain.head?,L.commitments b.hash=[]
  room : (L.leaves chain).length≤2^SAPLING_INCREMENTAL_MERKLE_TREE_DEPTH
  roots : ∀k<chain.length,0<k → ∀b∈chain[k]?,b.hashFinalSaplingRoot=
    (L.saplingTree O (chain.take (k+1))).root O SAPLING_INCREMENTAL_MERKLE_TREE_DEPTH

/-- The active chain goes through these blocks, and their trees are found by their roots. -/
structure Node.Serves (chain : List (CBlockIndex H)) : Prop where
  active : chain <+: N.chainActive
  anchors : ∀k<chain.length,∀b∈chain[k]?,
    (N.getSaplingAnchorAt b.hashFinalSaplingRoot).getD .new=
      L.saplingTree O (chain.take (k+1))
  uninterrupted : ∀b∈chain,N.interrupted b.hash=false

/-- A nullifier that the note can have. -/
def Ledger.NullifierOf (op : SaplingOutPoint H) (nf : Uint256) : Prop :=
  ∃output ivk plaintext fvk position,(L.vShieldedOutput op.hash)[op.n]?=some output ∧
    output.decrypt C ivk=some plaintext ∧ C.nullifier plaintext ivk fvk position=some nf

/-- The note is not spent, or at most as deep as the cache is long. -/
def Node.Recent (op : SaplingOutPoint H) : Prop :=
  ∀nf,L.NullifierOf C op nf → N.getSaplingSpendDepth nf≤N.WITNESS_CACHE_SIZE

end Chain

/-- What the wallet was told: the chain, the greatest length it had, and the wallet. -/
structure Notified (H K A F : Type) where
  chain : List (CBlockIndex H)
  longest : Nat
  wallet : CWallet H K A F

def Notified.init {H K A F : Type} : Notified H K A F := ⟨[],0,.empty⟩

/-- `ChainTip` with the transactions that are synced before it, and the calls in between. -/
inductive Notification (H K A F : Type) where
  | connect (block : CBlockIndex H) (N : Node H) (how : H → Involvement × Bool)
    (witnessOnly : Bool)
  | disconnect (N : Node H) (how : H → Involvement × Bool)
  | call (event : Event H K A F)

section Heard

variable {H K A F P : Type} [LinearOrder H] [LinearOrder K] [LinearOrder A]
variable (C : NoteCrypto K A F P) (O : HashClass Uint256) (L : Ledger H)

/-- `SyncWithWallets` for all transactions of a block. -/
def syncBlock (block : H) (pblock : Option H) (how : H → Involvement × Bool)
    (w : CWallet H K A F) : Except Fault (CWallet H K A F) :=
  (L.vtx block).foldlM (fun w tx =>
    addToWalletIfInvolvingMe C L tx pblock (how tx).1 (how tx).2 w) w

def notify (s : Notified H K A F) : Notification H K A F → Except Fault (Notified H K A F)
  | .connect block N how witnessOnly => do
      let w ← syncBlock C L block.hash (some block.hash) how s.wallet
      let w ← step C O L w (.connected N block.hash s.chain.length witnessOnly)
      return ⟨s.chain++[block],max s.longest (s.chain.length+1),w⟩
  | .disconnect N how =>
      match s.chain.getLast? with
      | none => return s
      | some block => do
          let w ← syncBlock C L block.hash none how s.wallet
          let w ← step C O L w (.disconnected N block.hash (s.chain.length-1))
          return ⟨s.chain.dropLast,s.longest,w⟩
  | .call event => do
      let w ← step C O L s.wallet event
      return {s with wallet := w}

/-- The notifications that return. -/
abbrev heard (s : Notified H K A F) (n : Notification H K A F) : Option (Notified H K A F) :=
  (notify C O L s n).toOption

/-- Notifications that follow a chain: a connected block extends it validly and is in the
active chain by then, and no reorganisation is deeper than the cache. The filter for notaries
takes a transaction again that it took before, and an address keeps its key. -/
def Follows (reorg : Nat) (s : Notified H K A F) : Notification H K A F → Prop
  | .connect block N how _ =>
      ValidChain O L (s.chain++[block]) ∧ N.Serves O L (s.chain++[block]) ∧
        N.MAX_REORG_LENGTH=reorg ∧ ∀tx∈L.vtx block.hash,(s.wallet.mapWallet.lookup tx).isSome →
          (how tx).1.emptyCoinbase=false ∧ (how tx).1.refused=false
  | .disconnect N _ =>
      1<s.chain.length ∧ N.MAX_REORG_LENGTH=reorg ∧
        s.longest<s.chain.length-1+N.WITNESS_CACHE_SIZE
  | .call event =>
      match event with
      | .connected _ _ _ _ => False
      | .disconnected _ _ _ => False
      | .addIncomingViewingKey address ivk =>
          ∀e∈s.wallet.mapSaplingIncomingViewingKeys,e.1=address → e.2=ivk
      | _ => True

/-- All notes of confirmed transactions have a witness at the tip with the root of the tip. -/
def AtTip (s : Notified H K A F) (op : SaplingOutPoint H) : Prop :=
  ∀p∈s.wallet.mapWallet,(p.2.confirmedIn L s.chain).isSome →
    ∀e∈p.2.mapSaplingNoteData,e.1=op →
      e.2.witnessHeight=(s.chain.length : Int)-1 ∧
        e.2.witnesses.head?.map (rootOf O)=s.chain.getLast?.map CBlockIndex.hashFinalSaplingRoot

/-- A note without a nullifier is the first of its transaction or holds no witness. -/
def Settled (chain : List (CBlockIndex H)) (op : SaplingOutPoint H) (w : CWallet H K A F) : Prop :=
  ∀p∈w.mapWallet,(p.2.confirmedIn L chain).isSome →
    ∀e∈p.2.mapSaplingNoteData.tail,e.1=op → e.2.nullifier=none → e.2.witnesses=[]

/-- Of the notes that stay confirmed, those with several witnesses have the last one at the
block that is disconnected. -/
def UpToDate (s : Notified H K A F) (op : SaplingOutPoint H) : Prop :=
  ∀p∈s.wallet.mapWallet,(p.2.confirmedIn L s.chain.dropLast).isSome →
    ∀e∈p.2.mapSaplingNoteData,e.1=op → e.2.nullifier.isSome → 1<e.2.witnesses.length →
      e.2.witnessHeight=(s.chain.length : Int)-1

/-- What the witnesses of the note need beyond that. -/
def Regular (op : SaplingOutPoint H) (s : Notified H K A F) : Notification H K A F → Prop
  | .connect block _ how _ =>
      Returns (Settled L (s.chain++[block]) op)
        (syncBlock C L block.hash (some block.hash) how s.wallet)
  | .disconnect _ _ => UpToDate L s op
  | .call _ => True

def Notification.Recent (op : SaplingOutPoint H) : Notification H K A F → Prop
  | .connect _ N _ _ => N.Recent C L op
  | .disconnect N _ => N.Recent C L op
  | .call _ => True

end Heard

end Zdeex.Wallet.WitnessCache
