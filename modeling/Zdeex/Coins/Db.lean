import Zdeex.Coins.View

namespace Zdeex.Coins

open Zdeex.Framework

/-- The chain state database: one table for each record prefix and the three
best hashes, which are missing in a new database. -/
structure CCoinsViewDB (Tree : Type) where
  coins : KeyMap Uint256 CCoins
  saplingAnchors : KeyMap Uint256 Tree
  saplingNullifiers : KeyMap Uint256 Bool
  bestBlock : Option Uint256
  bestSproutAnchor : Option Uint256
  bestSaplingAnchor : Option Uint256

namespace CCoinsViewDB

variable {Tree : Type}

def new : CCoinsViewDB Tree := ⟨∅,∅,∅,none,none,none⟩

/-- The empty root is answered without reading the database. -/
def getSaplingAnchorAt (E : TreeEnv Tree) (d : CCoinsViewDB Tree) (rt : Uint256) : Option Tree :=
  if rt=E.emptyRoot then some E.newTree else d.saplingAnchors.lookup rt

/-- Only the presence of the record counts. -/
def getNullifier (d : CCoinsViewDB Tree) (nf : Uint256) : Bool :=
  (d.saplingNullifiers.lookup nf).isSome

def getBestAnchor (E : TreeEnv Tree) (d : CCoinsViewDB Tree) : ShieldedType → Uint256
  | .sprout => d.bestSproutAnchor.getD E.emptySproutRoot
  | .sapling => d.bestSaplingAnchor.getD E.emptyRoot

def writeCoins (_ : Uint256) (e : CCoinsCacheEntry) (old : Option CCoins) : Option CCoins :=
  if e.dirty then if e.coins.isPruned then none else some e.coins else old

/-- A tree with the empty root is never stored. -/
def writeAnchor (E : TreeEnv Tree) (rt : Uint256) (e : CAnchorsSaplingCacheEntry Tree)
    (old : Option Tree) : Option Tree :=
  if e.dirty then
    if !e.entered then none else if rt≠E.emptyRoot then some e.tree else old
  else old

def writeNullifier (_ : Uint256) (e : CNullifiersCacheEntry) (old : Option Bool) : Option Bool :=
  if e.dirty then if !e.entered then none else some true else old

/-- Null hashes are not written. -/
def writeBest (h : Uint256) (old : Option Uint256) : Option Uint256 :=
  if h.isNull then old else some h

def batchWrite (E : TreeEnv Tree) (d : CCoinsViewDB Tree) (c : CCoinsViewCache Tree) :
    CCoinsViewDB Tree where
  coins := KeyMap.writeLoop writeCoins c.cacheCoins.entries d.coins
  saplingAnchors := KeyMap.writeLoop (writeAnchor E) c.cacheSaplingAnchors.entries d.saplingAnchors
  saplingNullifiers :=
    KeyMap.writeLoop writeNullifier c.cacheSaplingNullifiers.entries d.saplingNullifiers
  bestBlock := writeBest c.hashBlock d.bestBlock
  bestSproutAnchor := writeBest c.hashSproutAnchor d.bestSproutAnchor
  bestSaplingAnchor := writeBest c.hashSaplingAnchor d.bestSaplingAnchor

/-- The database as the base of a stack of caches. -/
def ops (E : TreeEnv Tree) : BaseOps (CCoinsViewDB Tree) Tree where
  getCoins d txid := d.coins.lookup txid
  getNullifier := getNullifier
  getSaplingAnchorAt := getSaplingAnchorAt E
  getBestBlock d := d.bestBlock.getD 0
  getBestAnchor := getBestAnchor E
  batchWrite := batchWrite E

end CCoinsViewDB

/-- Trees without notes: enough to run the transparent part. -/
def bareEnv : TreeEnv Unit := ⟨fun _ => 1,(),1,1,fun _ => 1,fun _ => 1⟩

end Zdeex.Coins
