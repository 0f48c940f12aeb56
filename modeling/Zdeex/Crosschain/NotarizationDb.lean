import Mathlib.Logic.Function.Basic
import Zdeex.Block.ConnectBlock
import Zdeex.Crosschain.PartialMerkleTree
import Zdeex.Framework.Run
import Zdeex.Primitives.Serialize
import Zdeex.Script.OpReturn

namespace Zdeex.NotarizationDb

open Zdeex.Block
open Zdeex.Crosschain (unmarshal)
open Zdeex.Framework
open Zdeex.Script

section Format

/-- A C string in a buffer of 64 characters. -/
abbrev Symbol := {s : List Byte // s.length<64 ∧ 0∉s}

structure NotarizationData where
  blockHash : Uint256
  height : BitVec 32
  txHash : Uint256
  symbol : Symbol
  MoM : Uint256
  MoMDepth : BitVec 16
  ccId : BitVec 16
  MoMoM : Uint256
  MoMoMDepth : BitVec 32
  deriving DecidableEq

abbrev Notarization := Uint256 × NotarizationData

abbrev NotarizationsInBlock := List Notarization

/-- Written as a back notarization when it names a transaction. -/
def writeNotarizationData (n : NotarizationData) : List Byte :=
  toBytes n.blockHash++(toBytes n.height++((if n.txHash.isNull then [] else toBytes n.txHash)++
    (n.symbol.1++([0]++(toBytes n.MoM++(toBytes n.MoMDepth++(toBytes n.ccId++
      if n.txHash.isNull then [] else toBytes n.MoMoM++toBytes n.MoMoMDepth)))))))

/-- `SerSymbol`: up to the first null in the next 64 characters. -/
def readSymbol : Reader Symbol := fun bs =>
  if h : ((bs.take 64).takeWhile (· != 0)).length<(bs.take 64).length then
    some (⟨(bs.take 64).takeWhile (· != 0),
      by
        rw [List.length_take] at h
        omega,
      fun hmem => by simpa using List.mem_takeWhile_imp hmem⟩,
      bs.drop (((bs.take 64).takeWhile (· != 0)).length+1))
  else none

def readMoMoM (n : NotarizationData) : Reader NotarizationData := fun bs =>
  if bs.isEmpty then some (n,bs)
  else (do
    let MoMoM ← Reader.word 256
    let MoMoMDepth ← Reader.word 32
    return {n with MoMoM,MoMoMDepth} : Reader NotarizationData) bs

def readMoM (n : NotarizationData) : Reader NotarizationData := fun bs =>
  if bs.isEmpty then some (n,bs)
  else (do
    let MoM ← Reader.word 256
    let MoMDepth ← Reader.word 16
    let ccId ← Reader.word 16
    readMoMoM {n with MoM,MoMDepth,ccId} : Reader NotarizationData) bs

/-- On a chain with a symbol everything is read as a back notarization; the stream
may end after the symbol and after the first tree. -/
def readNotarizationData : Reader NotarizationData := do
  let blockHash ← Reader.word 256
  let height ← Reader.word 32
  let txHash ← Reader.word 256
  let symbol ← readSymbol
  readMoM ⟨blockHash,height,txHash,symbol,0,0,0,0,0⟩

def writeNotarization (n : Notarization) : List Byte := toBytes n.1++writeNotarizationData n.2

def readNotarization : Reader Notarization := do
  let hash ← Reader.word 256
  let data ← readNotarizationData
  return (hash,data)

theorem reads_symbol (s : Symbol) : Reads readSymbol (s.1++[0]) s := by
  intro rest
  have hlen := s.2.1
  have htake : (s.1++[0]++rest).take 64=s.1++0::rest.take (64-s.1.length-1) := by
    rw [List.append_assoc,List.take_append,List.take_of_length_le (by omega)]
    congr 1
    obtain ⟨k,hk⟩ : ∃k,64-s.1.length=k+1 := ⟨63-s.1.length,by omega⟩
    simp [hk]
  have hwhile : (s.1++0::rest.take (64-s.1.length-1)).takeWhile (· != 0)=s.1 := by
    rw [List.takeWhile_append_of_pos]
    · simp
    · intro b hb
      have hne : b≠0 := fun h => s.2.2 (h ▸ hb)
      simpa using hne
  have hlt : s.1.length<(s.1++0::rest.take (64-s.1.length-1)).length := by
    simp
  have hdrop : (s.1++[0]++rest).drop (s.1.length+1)=rest := by
    rw [List.append_assoc,←List.drop_drop,List.drop_left]
    rfl
  unfold readSymbol
  simp only [htake,hwhile,hlt,hdrop,dif_pos]

theorem reads_of_nonempty {n a : NotarizationData} {r : Reader NotarizationData} {e : List Byte}
    (he : e≠[]) (h : Reads r e a) :
    Reads (fun bs => if bs.isEmpty then some (n,bs) else r bs) e a := by
  intro rest
  have hne : (e++rest).isEmpty=false := by
    simp [he]
  change (if (e++rest).isEmpty then some (n,e++rest) else r (e++rest))=some (a,rest)
  rw [hne]
  exact h rest

theorem toBytes_append_ne {w : Nat} (hw : 0<w/8) (x : BitVec w) (e : List Byte) :
    toBytes x++e≠[] := by
  have hlen : (toBytes x++e).length=w/8+e.length := by simp
  intro h
  rw [h,List.length_nil] at hlen
  omega

/-- What names a transaction is read back. -/
theorem reads_notarizationData {n : NotarizationData} (hn : n.txHash.isNull=false) :
    Reads readNotarizationData (writeNotarizationData n) n := by
  unfold writeNotarizationData
  simp only [hn,Bool.false_eq_true,if_false]
  apply (Reads.word (by decide) n.blockHash).bind
  apply (Reads.word (by decide) n.height).bind
  apply (Reads.word (by decide) n.txHash).bind
  rw [←List.append_assoc n.symbol.1]
  apply (reads_symbol n.symbol).bind
  apply reads_of_nonempty (toBytes_append_ne (by decide) n.MoM _)
  apply (Reads.word (by decide) n.MoM).bind
  apply (Reads.word (by decide) n.MoMDepth).bind
  apply (Reads.word (by decide) n.ccId).bind
  apply reads_of_nonempty (toBytes_append_ne (by decide) n.MoMoM _)
  apply (Reads.word (by decide) n.MoMoM).bind
  exact (Reads.word (by decide) n.MoMoMDepth).map _

theorem reads_notarization {n : Notarization} (hn : n.2.txHash.isNull=false) :
    Reads readNotarization (writeNotarization n) n :=
  (Reads.word (by decide) n.1).bind ((reads_notarizationData hn).map _)

end Format

section Scan

def CROSSCHAIN_HUSH : Int := 1

def getSymbolAuthority (_ : Symbol) : Int := CROSSCHAIN_HUSH

/-- The settings of the chain, and the check of the notaries' inputs. -/
structure Scanner where
  ishush3 : Bool
  dpowStartHeight : Int
  checkNotaryInputs : CTransaction → Int → Nat → Bool

def parseNotarizationOpReturn (tx : CTransaction) : Option NotarizationData :=
  match tx.vout[1]? with
  | none => none
  | some out =>
      match getOpReturnData out.scriptPubKey with
      | none => none
      | some vdata => unmarshal readNotarizationData (vdata.map UInt8.toBitVec)

def Scanner.scanTransaction (W : Scanner) (block : CBlock) (nHeight : Int) (tx : CTransaction) :
    Option Notarization :=
  match parseNotarizationOpReturn tx with
  | none => none
  | some data =>
      if data.symbol.1.isEmpty then none
      else if getSymbolAuthority data.symbol=CROSSCHAIN_HUSH ∧
          W.checkNotaryInputs tx nHeight block.nTime=false then none
      else some (tx.hash,data)

def Scanner.scanBlockNotarizations (W : Scanner) (block : CBlock) (nHeight : Int) :
    NotarizationsInBlock :=
  if W.ishush3 ∧ nHeight≤W.dpowStartHeight then []
  else block.vtx.filterMap (W.scanTransaction block nHeight)

end Scan

section Database

abbrev Db := Uint256 → Option (List Byte)

/-- `Read`: what follows the value is not looked at. -/
def Db.read {α : Type} (db : Db) (key : Uint256) (r : Reader α) : Option α :=
  match db key with
  | none => none
  | some strValue => (r strValue).map Prod.fst

def getBlockNotarizations (db : Db) (blockHash : Uint256) : Option NotarizationsInBlock :=
  db.read blockHash (readVector readNotarization)

def getBackNotarization (db : Db) (notarizationHash : Uint256) : Option Notarization :=
  db.read notarizationHash readNotarization

/-- One entry of the batch for every notarization that names a transaction. -/
def batchBack (value : Notarization → Option (List Byte)) : NotarizationsInBlock → Db → Db
  | [],db => db
  | n::notarizations,db =>
      batchBack value notarizations
        (if n.2.txHash.isNull then db else Function.update db n.2.txHash (value n))

def writeBackNotarizations : NotarizationsInBlock → Db → Db :=
  batchBack fun n => some (writeNotarization n)

def eraseBackNotarizations : NotarizationsInBlock → Db → Db := batchBack fun _ => none

def connectNotarizations (W : Scanner) (block : CBlock) (height : Int) (db : Db) : Db :=
  let notarizations := W.scanBlockNotarizations block height
  if notarizations.isEmpty then db
  else writeBackNotarizations notarizations
    (Function.update db block.hash (some (writeVector writeNotarization notarizations)))

def disconnectNotarizations (block : CBlock) (db : Db) : Db :=
  match getBlockNotarizations db block.hash with
  | none => db
  | some nibs => eraseBackNotarizations nibs (Function.update db block.hash none)

variable {value : Notarization → Option (List Byte)} {ns : NotarizationsInBlock} {db : Db}
  {key : Uint256}

theorem batchBack_other (h : ∀n∈ns,n.2.txHash≠key) : batchBack value ns db key=db key := by
  induction ns generalizing db with
  | nil => rfl
  | cons n ns ih =>
    rw [batchBack,ih (fun m hm => h m (by simp [hm]))]
    split_ifs
    · rfl
    · exact Function.update_of_ne (h n (by simp)).symm _ _

/-- The last entry of a name counts. -/
theorem batchBack_named (value : Notarization → Option (List Byte)) (db : Db)
    (hnull : ∀n∈ns,n.2.txHash.isNull=false) (h : ∃n∈ns,n.2.txHash=key) :
    ∃n∈ns,n.2.txHash=key ∧ batchBack value ns db key=value n := by
  induction ns generalizing db with
  | nil => simp at h
  | cons m ns ih =>
    have hm := hnull m (by simp)
    have hrest : ∀n∈ns,n.2.txHash.isNull=false := fun n hn => hnull n (by simp [hn])
    rw [batchBack,hm]
    by_cases hlater : ∃n∈ns,n.2.txHash=key
    · obtain ⟨n,hn,hkey,hwritten⟩ := ih (Function.update db m.2.txHash (value m)) hrest hlater
      exact ⟨n,by simp [hn],hkey,hwritten⟩
    · have hkey : m.2.txHash=key := by
        obtain ⟨n,hn,hkey⟩ := h
        rcases List.mem_cons.mp hn with rfl | hn
        · exact hkey
        · exact absurd ⟨n,hn,hkey⟩ hlater
      refine ⟨m,by simp,hkey,?_⟩
      rw [batchBack_other fun n hn heq => hlater ⟨n,hn,heq⟩,←hkey]
      simp

theorem read_of_reads {α : Type} {r : Reader α} {e : List Byte} {a : α} (hdb : db key=some e)
    (hreads : Reads r e a) : db.read key r=some a := by
  have hnil := hreads []
  rw [List.append_nil] at hnil
  simp only [Db.read,hdb,hnil,Option.map_some]

theorem read_none {α : Type} {r : Reader α} (hdb : db key=none) : db.read key r=none := by
  simp only [Db.read,hdb]

end Database

section Runs

/-- The database beside the connected blocks and their heights, the tip first. -/
structure State where
  db : Db
  connected : List (CBlock × Int)

def State.empty : State := ⟨fun _ => none,[]⟩

inductive Op where
  | connect (block : CBlock) (height : Int)
  | disconnect

variable (W : Scanner)

def step (s : State) : Op → Option State
  | .connect block height =>
      some ⟨connectNotarizations W block height s.db,(block,height)::s.connected⟩
  | .disconnect =>
      match s.connected with
      | [] => none
      | tip::connected => some ⟨disconnectNotarizations tip.1 s.db,connected⟩

/-- The notarizations of a connected block. -/
abbrev scan (p : CBlock × Int) : NotarizationsInBlock := W.scanBlockNotarizations p.1 p.2

/-- A transaction that a connected block names. -/
def Named (connected : List (CBlock × Int)) (t : Uint256) : Prop :=
  ∃p∈connected,∃n∈scan W p,n.2.txHash=t

/-- A block that was read, has a new hash, and whose notarizations name transactions and
no block; no name is the hash of the block either. -/
structure Fresh (s : State) (p : CBlock × Int) : Prop where
  size : p.1.vtx.length≤MAX_SIZE
  new : ∀q∈s.connected,q.1.hash≠p.1.hash
  named : ∀n∈scan W p,n.2.txHash.isNull=false
  apart : ∀n∈scan W p,n.2.txHash≠p.1.hash ∧ ∀q∈s.connected,n.2.txHash≠q.1.hash
  unnamed : ¬Named W s.connected p.1.hash

/-- The condition on a call: new blocks are fresh, and a block that is disconnected
names no transaction that a block below it names. -/
def Clean (s : State) : Op → Prop
  | .connect block height => Fresh W s (block,height)
  | .disconnect => ∀p connected,s.connected=p::connected →
      ∀n∈scan W p,¬Named W connected n.2.txHash

/-- Every key of either kind answers for the connected blocks. -/
structure FollowsChain (s : State) : Prop where
  blocks : ∀p∈s.connected,scan W p≠[] → getBlockNotarizations s.db p.1.hash=some (scan W p)
  onlyBlocks : ∀hash ns,¬Named W s.connected hash → getBlockNotarizations s.db hash=some ns →
    ∃p∈s.connected,p.1.hash=hash ∧ scan W p=ns ∧ ns≠[]
  backs : ∀t,(∀p∈s.connected,p.1.hash≠t) →
    ((getBackNotarization s.db t).isSome ↔ Named W s.connected t)
  onlyBacks : ∀t n,(∀p∈s.connected,p.1.hash≠t) → getBackNotarization s.db t=some n →
    n.2.txHash=t ∧ ∃p∈s.connected,n∈scan W p

/-- What the database holds. -/
structure Entries (s : State) : Prop where
  size : ∀p∈s.connected,p.1.vtx.length≤MAX_SIZE
  distinct : (s.connected.map fun p => p.1.hash).Nodup
  named : ∀p∈s.connected,∀n∈scan W p,n.2.txHash.isNull=false
  apart : ∀p∈s.connected,¬Named W s.connected p.1.hash
  block : ∀p∈s.connected,scan W p≠[] →
    s.db p.1.hash=some (writeVector writeNotarization (scan W p))
  back : ∀t,Named W s.connected t → ∃p∈s.connected,∃n∈scan W p,n.2.txHash=t ∧
    s.db t=some (writeNotarization n)
  other : ∀key,(∀p∈s.connected,p.1.hash=key → scan W p=[]) → ¬Named W s.connected key →
    s.db key=none

variable {W} {s s' : State}

theorem length_scan_le (p : CBlock × Int) : (scan W p).length≤p.1.vtx.length := by
  unfold scan Scanner.scanBlockNotarizations
  split_ifs
  · simp
  · exact List.length_filterMap_le _ _

theorem Entries.getBlock (h : Entries W s) {p : CBlock × Int} (hp : p∈s.connected)
    (hscan : scan W p≠[]) : getBlockNotarizations s.db p.1.hash=some (scan W p) :=
  read_of_reads (h.block p hp hscan) (reads_vector ((length_scan_le p).trans (h.size p hp))
    fun n hn => reads_notarization (h.named p hp n hn))

theorem Entries.getBack (h : Entries W s) {t : Uint256} (ht : Named W s.connected t) :
    ∃p∈s.connected,∃n∈scan W p,n.2.txHash=t ∧ getBackNotarization s.db t=some n := by
  obtain ⟨p,hp,n,hn,hkey,hdb⟩ := h.back t ht
  exact ⟨p,hp,n,hn,hkey,read_of_reads hdb (reads_notarization (h.named p hp n hn))⟩

theorem Entries.follows (h : Entries W s) : FollowsChain W s where
  blocks _ hp hscan := h.getBlock hp hscan
  onlyBlocks hash ns hunnamed hget := by
    by_cases hblock : ∃p∈s.connected,p.1.hash=hash ∧ scan W p≠[]
    · obtain ⟨p,hp,rfl,hscan⟩ := hblock
      have heq := (h.getBlock hp hscan).symm.trans hget
      exact ⟨p,hp,rfl,Option.some.inj heq,Option.some.inj heq ▸ hscan⟩
    · have hnone := h.other hash (fun p hp hhash => by_contra fun hscan =>
        hblock ⟨p,hp,hhash,hscan⟩) hunnamed
      rw [getBlockNotarizations,read_none hnone] at hget
      cases hget
  backs t hblock := by
    constructor
    · intro hsome
      by_contra hunnamed
      have hnone := h.other t (fun p hp hhash => absurd hhash (hblock p hp)) hunnamed
      rw [getBackNotarization,read_none hnone] at hsome
      cases hsome
    · intro ht
      obtain ⟨p,hp,n,hn,hkey,hget⟩ := h.getBack ht
      simp [hget]
  onlyBacks t n hblock hget := by
    by_cases ht : Named W s.connected t
    · obtain ⟨p,hp,m,hm,hkey,hget'⟩ := h.getBack ht
      obtain rfl := Option.some.inj (hget'.symm.trans hget)
      exact ⟨hkey,p,hp,hm⟩
    · have hnone := h.other t (fun p hp hhash => absurd hhash (hblock p hp)) ht
      rw [getBackNotarization,read_none hnone] at hget
      cases hget

theorem named_cons {p : CBlock × Int} {connected : List (CBlock × Int)} {t : Uint256} :
    Named W (p::connected) t ↔ (∃n∈scan W p,n.2.txHash=t) ∨ Named W connected t := by
  simp [Named]

theorem connectNotarizations_other {p : CBlock × Int} {db : Db} {key : Uint256}
    (hblock : p.1.hash=key → scan W p=[]) (hback : ∀n∈scan W p,n.2.txHash≠key) :
    connectNotarizations W p.1 p.2 db key=db key := by
  unfold connectNotarizations
  split_ifs with hempty
  · rfl
  · rw [writeBackNotarizations,batchBack_other hback]
    apply Function.update_of_ne
    intro heq
    exact hempty (by simp [hblock heq.symm])

theorem connectNotarizations_block {p : CBlock × Int} {db : Db} (hscan : scan W p≠[])
    (hback : ∀n∈scan W p,n.2.txHash≠p.1.hash) :
    connectNotarizations W p.1 p.2 db p.1.hash=
      some (writeVector writeNotarization (scan W p)) := by
  unfold connectNotarizations
  rw [if_neg (by simpa using hscan),writeBackNotarizations,batchBack_other hback,
    Function.update_self]

theorem connectNotarizations_named {p : CBlock × Int} {db : Db} {t : Uint256}
    (hnull : ∀n∈scan W p,n.2.txHash.isNull=false) (ht : ∃n∈scan W p,n.2.txHash=t) :
    ∃n∈scan W p,n.2.txHash=t ∧ connectNotarizations W p.1 p.2 db t=some (writeNotarization n) := by
  have hscan : scan W p≠[] := by
    obtain ⟨n,hn,-⟩ := ht
    exact List.ne_nil_of_mem hn
  unfold connectNotarizations
  rw [if_neg (by simpa using hscan)]
  exact batchBack_named _ _ hnull ht

theorem Entries.connect (h : Entries W s) {p : CBlock × Int} (hp : Fresh W s p) :
    Entries W ⟨connectNotarizations W p.1 p.2 s.db,p::s.connected⟩ where
  size q hq := by
    rcases List.mem_cons.mp hq with rfl | hq
    · exact hp.size
    · exact h.size q hq
  distinct := by
    rw [List.map_cons,List.nodup_cons]
    refine ⟨fun hmem => ?_,h.distinct⟩
    obtain ⟨q,hq,hhash⟩ := List.mem_map.mp hmem
    exact hp.new q hq hhash
  named q hq := by
    rcases List.mem_cons.mp hq with rfl | hq
    · exact hp.named
    · exact h.named q hq
  apart q hq hnamed := by
    rcases List.mem_cons.mp hq with rfl | hq
    · rcases named_cons.mp hnamed with ⟨n,hn,heq⟩ | hold
      · exact (hp.apart n hn).1 heq
      · exact hp.unnamed hold
    · rcases named_cons.mp hnamed with ⟨n,hn,heq⟩ | hold
      · exact (hp.apart n hn).2 q hq heq
      · exact h.apart q hq hold
  block q hq hscan := by
    rcases List.mem_cons.mp hq with rfl | hq
    · exact connectNotarizations_block hscan fun n hn => (hp.apart n hn).1
    · rw [←h.block q hq hscan]
      exact connectNotarizations_other (fun heq => absurd heq.symm (hp.new q hq))
        fun n hn => (hp.apart n hn).2 q hq
  back t ht := by
    by_cases hnew : ∃n∈scan W p,n.2.txHash=t
    · obtain ⟨n,hn,hkey,hdb⟩ := connectNotarizations_named hp.named hnew
      exact ⟨p,by simp,n,hn,hkey,hdb⟩
    · have hold := (named_cons.mp ht).resolve_left hnew
      obtain ⟨q,hq,n,hn,hkey,hdb⟩ := h.back t hold
      refine ⟨q,by simp [hq],n,hn,hkey,?_⟩
      rw [←hdb]
      exact connectNotarizations_other (fun heq => absurd (heq ▸ hold) hp.unnamed)
        fun m hm heq => hnew ⟨m,hm,heq⟩
  other key hblock hunnamed := by
    change connectNotarizations W p.1 p.2 s.db key=none
    rw [connectNotarizations_other (hblock p (by simp))
      fun n hn heq => hunnamed (named_cons.mpr (.inl ⟨n,hn,heq⟩))]
    exact h.other key (fun q hq => hblock q (by simp [hq]))
      fun hold => hunnamed (named_cons.mpr (.inr hold))

theorem disconnectNotarizations_other {p : CBlock × Int} {db : Db} {key : Uint256}
    (hget : getBlockNotarizations db p.1.hash=some (scan W p) ∨
      getBlockNotarizations db p.1.hash=none)
    (hblock : p.1.hash≠key) (hback : ∀n∈scan W p,n.2.txHash≠key) :
    disconnectNotarizations p.1 db key=db key := by
  unfold disconnectNotarizations
  rcases hget with hget | hget
  · rw [hget]
    dsimp only
    rw [eraseBackNotarizations,batchBack_other hback]
    exact Function.update_of_ne hblock.symm _ _
  · rw [hget]

theorem disconnectNotarizations_own {p : CBlock × Int} {db : Db} {key : Uint256}
    (hget : getBlockNotarizations db p.1.hash=some (scan W p))
    (hnull : ∀n∈scan W p,n.2.txHash.isNull=false)
    (hkey : p.1.hash=key ∨ ∃n∈scan W p,n.2.txHash=key) :
    disconnectNotarizations p.1 db key=none := by
  unfold disconnectNotarizations
  rw [hget]
  dsimp only
  rw [eraseBackNotarizations]
  by_cases hnamed : ∃n∈scan W p,n.2.txHash=key
  · obtain ⟨n,hn,hkey,hdb⟩ := batchBack_named (fun _ => none)
      (Function.update db p.1.hash none) hnull hnamed
    exact hdb
  · rw [batchBack_other fun n hn heq => hnamed ⟨n,hn,heq⟩,hkey.resolve_right hnamed,
      Function.update_self]

/-- The entry of the tip. -/
theorem Entries.getTip {p : CBlock × Int} {connected : List (CBlock × Int)} {db : Db}
    (h : Entries W ⟨db,p::connected⟩) :
    getBlockNotarizations db p.1.hash=some (scan W p) ∨
      scan W p=[] ∧ db p.1.hash=none := by
  by_cases hscan : scan W p=[]
  · refine .inr ⟨hscan,h.other _ (fun q hq hhash => ?_) (h.apart p (by simp))⟩
    rcases List.mem_cons.mp hq with rfl | hq
    · exact hscan
    · have hnodup := (List.nodup_cons.mp h.distinct).1
      exact absurd (List.mem_map.mpr ⟨q,hq,hhash⟩) hnodup
  · exact .inl (h.getBlock (by simp) hscan)

theorem Entries.disconnect {p : CBlock × Int} {connected : List (CBlock × Int)} {db : Db}
    (h : Entries W ⟨db,p::connected⟩) (hclean : ∀n∈scan W p,¬Named W connected n.2.txHash) :
    Entries W ⟨disconnectNotarizations p.1 db,connected⟩ := by
  have htip := h.getTip
  have hget : getBlockNotarizations db p.1.hash=some (scan W p) ∨
      getBlockNotarizations db p.1.hash=none :=
    htip.imp_right fun hnone => read_none hnone.2
  have hnew : ∀q∈connected,p.1.hash≠q.1.hash := fun q hq heq =>
    (List.nodup_cons.mp h.distinct).1 (List.mem_map.mpr ⟨q,hq,heq.symm⟩)
  have hnamed : ∀{t},Named W connected t → Named W (p::connected) t :=
    fun ht => named_cons.mpr (.inr ht)
  refine ⟨fun q hq => h.size q (by simp [hq]),(List.nodup_cons.mp h.distinct).2,
    fun q hq => h.named q (by simp [hq]),fun q hq ht => h.apart q (by simp [hq]) (hnamed ht),
    fun q hq hscan => ?_,fun t ht => ?_,fun key hblock hunnamed => ?_⟩
  · rw [←h.block q (by simp [hq]) hscan]
    refine disconnectNotarizations_other hget (hnew q hq) fun n hn heq => ?_
    exact h.apart q (by simp [hq]) (named_cons.mpr (.inl ⟨n,hn,heq⟩))
  · obtain ⟨q,hq,n,hn,hkey,hdb⟩ := h.back t (hnamed ht)
    have hq' : q∈connected := by
      rcases List.mem_cons.mp hq with rfl | hq
      · exact absurd (hkey ▸ ht) (hclean n hn)
      · exact hq
    refine ⟨q,hq',n,hn,hkey,?_⟩
    rw [←hdb]
    refine disconnectNotarizations_other hget (fun heq => ?_) fun m hm heq => ?_
    · exact h.apart p (by simp) (heq ▸ hnamed ht)
    · exact hclean m hm (heq ▸ ht)
  · by_cases hown : scan W p≠[] ∧ p.1.hash=key ∨ ∃n∈scan W p,n.2.txHash=key
    · have hscan : scan W p≠[] := by
        rcases hown with hown | ⟨n,hn,-⟩
        · exact hown.1
        · exact List.ne_nil_of_mem hn
      exact disconnectNotarizations_own (htip.resolve_right fun hnone => hscan hnone.1)
        (h.named p (by simp)) (hown.imp_left And.right)
    · have hback : ∀n∈scan W p,n.2.txHash≠key := fun n hn heq => hown (.inr ⟨n,hn,heq⟩)
      have hnone : db key=none := by
        refine h.other key (fun q hq hhash => ?_) fun ht => ?_
        · rcases List.mem_cons.mp hq with rfl | hq
          · by_contra hscan
            exact hown (.inl ⟨hscan,hhash⟩)
          · exact hblock q hq hhash
        · rcases named_cons.mp ht with ⟨n,hn,heq⟩ | hold
          · exact hback n hn heq
          · exact hunnamed hold
      change disconnectNotarizations p.1 db key=none
      by_cases hhash : p.1.hash=key
      · have hread : getBlockNotarizations db p.1.hash=none := read_none (hhash ▸ hnone)
        unfold disconnectNotarizations
        rw [hread]
        exact hnone
      · rw [disconnectNotarizations_other hget hhash hback]
        exact hnone

theorem step_entries (op : Op) (hclean : Clean W s op) (h : Entries W s)
    (hstep : step W s op=some s') : Entries W s' := by
  cases op with
  | connect block height =>
    obtain rfl := Option.some.inj hstep
    exact h.connect (p := (block,height)) hclean
  | disconnect =>
    obtain ⟨db,connected⟩ := s
    cases connected with
    | nil => cases hstep
    | cons tip connected =>
      obtain rfl := Option.some.inj hstep
      exact h.disconnect (hclean tip connected rfl)

theorem entries_empty : Entries W .empty := by
  constructor <;> simp [State.empty,Named]

/-- Over every run of tips in which no call meets a doubled name. -/
theorem index_follows_chain (ops : List Op) (hrun : run (step W) ops .empty=some s)
    (hclean : Guarded (step W) (Clean W) ops .empty) : FollowsChain W s :=
  (run_keeps (fun _ op _ hop hI hstep => step_entries op hop hI hstep) hrun hclean
    entries_empty).follows

/-- A transaction with a notarization of the chain `B` that names a transaction. -/
def namingTx (hash t : Uint256) : CTransaction :=
  ⟨hash,true,4,0,[],[⟨0,[]⟩,⟨0,[0x6a,70]++(toBytes (0 : Uint256)++toBytes (1 : BitVec 32)++
    toBytes t++[0x42,0]).map UInt8.ofBitVec⟩],0,0,[],[],[]⟩

def namingBlock (hash t : Uint256) : CBlock := ⟨hash,0,0,[namingTx (hash+10) t]⟩

def anyNotary : Scanner := ⟨false,0,fun _ _ _ => true⟩

instance (W : Scanner) (connected : List (CBlock × Int)) (t : Uint256) :
    Decidable (Named W connected t) :=
  inferInstanceAs (Decidable (∃p∈connected,∃n∈scan W p,n.2.txHash=t))

def distinctNames : List Op :=
  [.connect (namingBlock 1 9) 1,.connect (namingBlock 2 8) 2,.disconnect]

def doubledName : List Op :=
  [.connect (namingBlock 1 9) 1,.connect (namingBlock 2 9) 2,.disconnect]

theorem distinctNames_clean : Guarded (step anyNotary) (Clean anyNotary) distinctNames .empty := by
  refine ⟨⟨by decide,by decide +kernel,by decide +kernel,by decide +kernel,by decide +kernel⟩,
    fun s₁ h₁ => ?_⟩
  obtain rfl := Option.some.inj h₁
  refine ⟨⟨by decide,by decide +kernel,by decide +kernel,by decide +kernel,by decide +kernel⟩,
    fun s₂ h₂ => ?_⟩
  obtain rfl := Option.some.inj h₂
  refine ⟨fun p connected hconnected => ?_,fun _ _ => trivial⟩
  obtain ⟨rfl,rfl⟩ := List.cons.inj hconnected
  decide +kernel

theorem distinctNames_followed :
    ∃s,run (step anyNotary) distinctNames .empty=some s ∧ FollowsChain anyNotary s :=
  ⟨_,rfl,index_follows_chain distinctNames rfl distinctNames_clean⟩

/-- Disconnecting the second block erases the entry that the first one needs. -/
theorem doubledName_lost :
    ∃s,run (step anyNotary) doubledName .empty=some s ∧
      s.connected=[(namingBlock 1 9,1)] ∧ Named anyNotary s.connected 9 ∧
      getBackNotarization s.db 9=none ∧ ¬FollowsChain anyNotary s := by
  refine ⟨_,rfl,rfl,by decide +kernel,by decide +kernel,fun hfollows => ?_⟩
  have hiff := hfollows.backs 9 (by decide +kernel)
  revert hiff
  decide +kernel

end Runs

end Zdeex.NotarizationDb
