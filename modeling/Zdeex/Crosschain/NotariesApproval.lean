import Mathlib.Tactic.Common
import Zdeex.Block.Transaction
import Zdeex.Crosschain.PartialMerkleTree
import Zdeex.Script.OpReturn

namespace Zdeex.Crosschain

open Zdeex.Framework
open Zdeex.Coins
open Zdeex.Block
open Zdeex.Script

structure CBlockIndex where
  nHeight : Int
  nTime : Nat
  deriving DecidableEq

abbrev Pubkey33 := List UInt8

/-- A C string. -/
abbrev Address := List UInt8

/-- Tables and settings behind the notary keys of a season. -/
structure NotarySeasons where
  smartChain : Bool
  ishush3 : Bool
  istush : Bool
  nHushHardforkHeight3 : Int
  HUSH_SEASON_HEIGHTS : List Int
  HUSH_SEASON_TIMESTAMPS : List Int
  heightstamp : Int → Int
  pubkeys : Nat → Vector Pubkey33 64

namespace NotarySeasons

/-- The loop of both season lookups: the first season whose bounds hold `x`. -/
def seasonLoop (x : Int) : Nat → List Int → Nat
  | i,before::upto::rest =>
      if x≤upto ∧ before<x then i+1 else seasonLoop x (i+1) (upto::rest)
  | _,_ => 0

def season (bounds : List Int) (x : Int) : Nat :=
  if x≤bounds.headD 0 then 1 else seasonLoop x 1 bounds

variable (T : NotarySeasons)

def gethushseason (height : Int) : Nat :=
  if T.istush then 7
  else if T.nHushHardforkHeight3<height then 7
  else season T.HUSH_SEASON_HEIGHTS height

def getacseason (timestamp : Int) : Nat := season T.HUSH_SEASON_TIMESTAMPS timestamp

/-- The 64 keys of the season, or a negative count. -/
def hushNotaries (height timestamp : Int) : Option (Vector Pubkey33 64) :=
  let timestamp :=
    if timestamp=0 ∧ T.smartChain then T.heightstamp height
    else if T.smartChain then timestamp else 0
  let season := if T.ishush3 || T.istush then T.gethushseason height else T.getacseason timestamp
  if season=0 then none else some (T.pubkeys (season-1))

end NotarySeasons

/-- The chain as the evaluation code reads it, with the hash of two nodes and the
address encodings. -/
structure Chain where
  getTxUnconfirmed : Uint256 → Option (CTransaction × Uint256)
  getBlock : Uint256 → Option CBlockIndex
  getscriptaddress : List UInt8 → Option Address
  pubkey2addr : Pubkey33 → Address
  seasons : NotarySeasons
  hash : Uint256 → Uint256 → Uint256
  maxBlockSize : Nat

namespace Chain

variable (E : Chain)

def getTxConfirmed (hash : Uint256) : Option (CTransaction × CBlockIndex) :=
  match E.getTxUnconfirmed hash with
  | none => none
  | some (txOut,hashBlock) =>
      if hashBlock.isNull then none
      else
        match E.getBlock hashBlock with
        | none => none
        | some block => some (txOut,block)

/-- The address of the output that an input spends. -/
def spentAddress (sourcetx : CTransaction) (i : Nat) : Option Address :=
  match sourcetx.vin[i]? with
  | none => none
  | some txin =>
      match E.getTxUnconfirmed txin.prevout.hash with
      | none => none
      | some (vintx,_) =>
          match vintx.vout[txin.prevout.n]? with
          | none => none
          | some out => E.getscriptaddress out.scriptPubKey

def checkVinPubKey (sourcetx : CTransaction) (i : Nat) (pubkey33 : Pubkey33) : Bool :=
  E.spentAddress sourcetx i==some (E.pubkey2addr pubkey33)

/-- The Merkle block in the op_return of an approval. -/
def approvalProof (notarytx : CTransaction) : Option CMerkleBlock :=
  match notarytx.vout.getLast? with
  | none => none
  | some out =>
      match getOpReturnData out.scriptPubKey with
      | none => none
      | some vopret =>
          match unmarshal readBytes (vopret.map UInt8.toBitVec) with
          | none => none
          | some txoutproof => unmarshal readMerkleBlock txoutproof

def extractMatches (merkleBlock : CMerkleBlock) : Uint256 × List Uint256 :=
  merkleBlock.txn.extractMatches E.hash E.maxBlockSize

/-- The condition on the proof, with the connective of the source. -/
def proofPasses (burntxid : Uint256) (merkleBlock : CMerkleBlock) : Bool :=
  (E.extractMatches merkleBlock).1!=merkleBlock.header.hashMerkleRoot ||
    (E.extractMatches merkleBlock).2.contains burntxid

structure Approvals where
  count : Nat
  alreadySigned : List Pubkey33
  deriving DecidableEq

/-- The loop over the notaries: the first one that signed and is new is counted. -/
def countSigner (notarytx : CTransaction) (pubkeys : Vector Pubkey33 64) (s : Approvals) :
    Approvals :=
  match pubkeys.toList.find? fun key =>
      E.checkVinPubKey notarytx 0 key && !s.alreadySigned.contains key with
  | none => s
  | some key => ⟨s.count+1,s.alreadySigned++[key]⟩

/-- One round of `CheckNotariesApproval`. -/
def approvalRound (burntxid : Uint256) (s : Approvals) (notarytxid : Uint256) : Approvals :=
  match E.getTxConfirmed notarytxid with
  | none => s
  | some (notarytx,block) =>
      match approvalProof notarytx with
      | none => s
      | some merkleBlock =>
          if E.proofPasses burntxid merkleBlock then
            match E.seasons.hushNotaries block.nHeight block.nTime with
            | none => s
            | some pubkeys => E.countSigner notarytx pubkeys s
          else s

def checkNotariesApproval (burntxid : Uint256) (notaryTxids : List Uint256) : Bool :=
  let s := notaryTxids.foldl (E.approvalRound burntxid) ⟨0,[]⟩
  if s.count<5 then false else true

/-- A listed and confirmed transaction of the notary `key` carries the proof. -/
def Signs (notaryTxids : List Uint256) (key : Pubkey33) (merkleBlock : CMerkleBlock) : Prop :=
  ∃notarytxid∈notaryTxids,∃notarytx block pubkeys,
    E.getTxConfirmed notarytxid=some (notarytx,block) ∧
    approvalProof notarytx=some merkleBlock ∧
    E.seasons.hushNotaries block.nHeight block.nTime=some pubkeys ∧ key∈pubkeys.toList ∧
    E.spentAddress notarytx 0=some (E.pubkey2addr key)

/-- The root of the proof is the one of its header and the burn is a match. -/
def Proves (burntxid : Uint256) (merkleBlock : CMerkleBlock) : Prop :=
  (E.extractMatches merkleBlock).1=merkleBlock.header.hashMerkleRoot ∧
    burntxid∈(E.extractMatches merkleBlock).2

def FiveApprove (burntxid : Uint256) (notaryTxids : List Uint256) : Prop :=
  ∃keys : List Pubkey33,keys.Nodup ∧ 5≤keys.length ∧
    ∀key∈keys,∃merkleBlock,E.Signs notaryTxids key merkleBlock ∧ E.Proves burntxid merkleBlock

/-- No notary signs a proof whose root is not the one of its header. -/
def NoForgedProof (notaryTxids : List Uint256) : Prop :=
  ∀key merkleBlock,E.Signs notaryTxids key merkleBlock →
    (E.extractMatches merkleBlock).1=merkleBlock.header.hashMerkleRoot

/-- Every counted key is new and signs a listed proof that passes the check. -/
structure Tallied (burntxid : Uint256) (notaryTxids : List Uint256) (s : Approvals) : Prop where
  count : s.count=s.alreadySigned.length
  nodup : s.alreadySigned.Nodup
  signed : ∀key∈s.alreadySigned,∃merkleBlock,
    E.Signs notaryTxids key merkleBlock ∧ E.proofPasses burntxid merkleBlock=true

variable {E} {burntxid : Uint256} {notaryTxids : List Uint256}

theorem approvalRound_cases (s : Approvals) (notarytxid : Uint256) :
    E.approvalRound burntxid s notarytxid=s ∨
    ∃key merkleBlock,E.Signs [notarytxid] key merkleBlock ∧
      E.proofPasses burntxid merkleBlock=true ∧ key∉s.alreadySigned ∧
      E.approvalRound burntxid s notarytxid=⟨s.count+1,s.alreadySigned++[key]⟩ := by
  cases htx : E.getTxConfirmed notarytxid with
  | none => exact .inl (by simp only [approvalRound,htx])
  | some p =>
    obtain ⟨notarytx,block⟩ := p
    cases hproof : approvalProof notarytx with
    | none => exact .inl (by simp only [approvalRound,htx,hproof])
    | some merkleBlock =>
      by_cases hpass : E.proofPasses burntxid merkleBlock=true
      · cases hkeys : E.seasons.hushNotaries block.nHeight block.nTime with
        | none => exact .inl (by simp only [approvalRound,htx,hproof,if_pos hpass,hkeys])
        | some pubkeys =>
          cases hfind : pubkeys.toList.find? fun key =>
              E.checkVinPubKey notarytx 0 key && !s.alreadySigned.contains key with
          | none =>
            exact .inl (by simp only [approvalRound,htx,hproof,if_pos hpass,hkeys,countSigner,hfind])
          | some key =>
            have hmem := List.mem_of_find?_eq_some hfind
            have hkey := List.find?_some hfind
            rw [Bool.and_eq_true] at hkey
            obtain ⟨howns,hnew⟩ := hkey
            refine .inr ⟨key,merkleBlock,?_,hpass,by simpa using hnew,?_⟩
            · refine ⟨notarytxid,by simp,notarytx,block,pubkeys,htx,hproof,hkeys,hmem,?_⟩
              simpa [checkVinPubKey] using howns
            · simp only [approvalRound,htx,hproof,if_pos hpass,hkeys,countSigner,hfind]
      · exact .inl (by simp only [approvalRound,htx,hproof,if_neg hpass])

theorem Signs.mono {l l' : List Uint256} {key : Pubkey33} {merkleBlock : CMerkleBlock}
    (hl : ∀txid∈l,txid∈l') (h : E.Signs l key merkleBlock) : E.Signs l' key merkleBlock := by
  obtain ⟨txid,hmem,hrest⟩ := h
  exact ⟨txid,hl txid hmem,hrest⟩

theorem Tallied.round {s : Approvals} {notarytxid : Uint256}
    (hmem : notarytxid∈notaryTxids) (h : E.Tallied burntxid notaryTxids s) :
    E.Tallied burntxid notaryTxids (E.approvalRound burntxid s notarytxid) := by
  obtain hsame | ⟨key,merkleBlock,hsigns,hpass,hnew,heq⟩ := approvalRound_cases s notarytxid
  · rw [hsame]
    exact h
  · rw [heq]
    refine ⟨by simp [h.count],?_,?_⟩
    · have hdisjoint : ∀k∈s.alreadySigned,k≠key := by
        intro k hk hkey
        exact hnew (hkey ▸ hk)
      simpa [List.nodup_append] using ⟨h.nodup,hdisjoint⟩
    · intro k hk
      rcases List.mem_append.mp hk with hk | hk
      · exact h.signed k hk
      · have : k=key := by simpa using hk
        subst k
        exact ⟨merkleBlock,hsigns.mono (by simpa using hmem),hpass⟩

/-- The whole loop, over any part of the list. -/
theorem Tallied.loop {s : Approvals} (txids : List Uint256)
    (hsub : ∀txid∈txids,txid∈notaryTxids) (h : E.Tallied burntxid notaryTxids s) :
    E.Tallied burntxid notaryTxids (txids.foldl (E.approvalRound burntxid) s) := by
  induction txids generalizing s with
  | nil => exact h
  | cons txid txids ih =>
    rw [List.foldl_cons]
    apply ih (fun t ht => hsub t (List.mem_cons_of_mem txid ht))
    exact h.round (hsub txid (by simp))

/-- A list without forged proofs is accepted only if five notaries approved the burn. -/
theorem approval_of_no_forged_proof (E : Chain) (burntxid : Uint256) (notaryTxids : List Uint256)
    (hforged : E.NoForgedProof notaryTxids)
    (haccept : E.checkNotariesApproval burntxid notaryTxids=true) :
    E.FiveApprove burntxid notaryTxids := by
  have hstart : E.Tallied burntxid notaryTxids ⟨0,[]⟩ := ⟨rfl,List.nodup_nil,by simp⟩
  have htally := hstart.loop notaryTxids (fun _ h => h)
  have hcount : 5≤(notaryTxids.foldl (E.approvalRound burntxid) ⟨0,[]⟩).count := by
    by_contra hlt
    simp [checkNotariesApproval,Nat.not_le.mp hlt] at haccept
  refine ⟨_,htally.nodup,htally.count ▸ hcount,?_⟩
  intro key hkey
  obtain ⟨merkleBlock,hsigns,hpass⟩ := htally.signed key hkey
  have hroot := hforged key merkleBlock hsigns
  refine ⟨merkleBlock,hsigns,hroot,?_⟩
  simpa [proofPasses,hroot] using hpass

/-- A block of one transaction `leaf` under a header that names `root`. -/
def soleTxBlock (root leaf : Uint256) : CMerkleBlock :=
  ⟨⟨4,0,root,0,0,0,0,[]⟩,⟨1,true::List.replicate 7 false,[leaf]⟩⟩

def soleTxProof (root leaf : Uint256) : List Byte :=
  (toBytes 4#32++(toBytes 0#256++(toBytes root++(toBytes 0#256++(toBytes 0#32++
    (toBytes 0#32++(toBytes 0#256++[0])))))))++(toBytes 1#32++((1::toBytes leaf)++[1,1]))

/-- The approval with txid `i`, whose input spends the output `(100+i,0)`. -/
def soleTxApproval (root leaf i : Uint256) : CTransaction :=
  let push := [0x6a,0x4c,181,180]++(soleTxProof root leaf).map UInt8.ofBitVec
  ⟨i,true,4,0,[⟨⟨100+i,0⟩,[]⟩],[⟨0,push⟩],0,0,[],[],[]⟩

/-- Txids 1 to 5 are approvals by five notaries, each with the proof of the same
block of one transaction. -/
def fiveApprovals (root leaf : Uint256) : Chain where
  getTxUnconfirmed txid :=
    if 0<txid.toNat ∧ txid.toNat<6 then some (soleTxApproval root leaf txid,1)
    else if 100<txid.toNat ∧ txid.toNat<106 then
      some (⟨txid,true,4,0,[],[⟨1,[UInt8.ofNat (txid.toNat-101)]⟩],0,0,[],[],[]⟩,1)
    else none
  getBlock _ := some ⟨200,5⟩
  getscriptaddress scriptPubKey := some scriptPubKey
  pubkey2addr pubkey33 := pubkey33
  seasons := ⟨true,false,false,0,[0],[10],fun _ => 0,fun _ => Vector.ofFn fun i => [UInt8.ofNat i]⟩
  hash a b := a+b
  maxBlockSize := 4194304

private theorem reads_soleTxBlock (root leaf : Uint256) :
    Reads readMerkleBlock (soleTxProof root leaf) (soleTxBlock root leaf) := by
  have hheader : Reads readBlockHeader (toBytes 4#32++(toBytes 0#256++(toBytes root++
      (toBytes 0#256++(toBytes 0#32++(toBytes 0#32++(toBytes 0#256++[0])))))))
      ⟨4,0,root,0,0,0,0,[]⟩ := by
    have h32 : ∀x : BitVec 32,Reads (Reader.word 32) (toBytes x) x := Reads.word (by decide)
    have h256 : ∀x : BitVec 256,Reads (Reader.word 256) (toBytes x) x := Reads.word (by decide)
    have hempty : Reads readBytes [0] [] := (reads_compactSize (n := 0) (by decide)).bind
      (Reads.bytes [])
    apply (h32 4).bind
    apply (h256 0).bind
    apply (h256 root).bind
    apply (h256 0).bind
    apply (h32 0).bind
    apply (h32 0).bind
    apply (h256 0).bind
    exact hempty.map _
  have htree : Reads readPartialMerkleTree (toBytes 1#32++((1::toBytes leaf)++[1,1]))
      ⟨1,true::List.replicate 7 false,[leaf]⟩ := by
    have hvector : Reads (readVector (Reader.word 256)) (1::toBytes leaf) [leaf] := by
      have hread : Reads (readVector (Reader.word 256)) (writeVector toBytes [leaf]) [leaf] :=
        reads_vector (show 1≤MAX_SIZE by decide) (fun x _ => Reads.word (by decide) x)
      simpa [writeVector,writeCompactSize,bytesOf] using hread
    have hbytes : Reads readBytes [1,1] [1] := (reads_compactSize (n := 1) (by decide)).bind
      (Reads.bytes [1])
    apply (Reads.word (by decide) 1#32).bind
    apply hvector.bind
    exact hbytes.map _
  apply hheader.bind
  exact htree.map _

theorem unmarshal_of_reads {α : Type} {r : Reader α} {e : List Byte} {a : α}
    (h : Reads r e a) : unmarshal r e=some a := by
  have hnil := h []
  rw [List.append_nil] at hnil
  simp only [unmarshal,hnil]

theorem approvalProof_soleTxApproval (root leaf i : Uint256) :
    approvalProof (soleTxApproval root leaf i)=some (soleTxBlock root leaf) := by
  have hlen : (soleTxProof root leaf).length=180 := by simp [soleTxProof]
  have hopret : getOpReturnData ([0x6a,0x4c,181,180]++(soleTxProof root leaf).map UInt8.ofBitVec)=
      some (180::(soleTxProof root leaf).map UInt8.ofBitVec) := by
    have htake := List.take_of_length_le (l := (soleTxProof root leaf).map UInt8.ofBitVec) (i := 180)
      (by simp [hlen])
    simp [getOpReturnData,getOp,pushSize,readLength,OP_RETURN,OP_PUSHDATA1,OP_PUSHDATA4,hlen,htake]
  have hpush : unmarshal readBytes (180::soleTxProof root leaf)=some (soleTxProof root leaf) := by
    have hread := (reads_compactSize (n := 180) (by decide)).bind (hlen ▸ Reads.bytes _)
    exact unmarshal_of_reads hread
  have hbytes : ((180::(soleTxProof root leaf).map UInt8.ofBitVec).map UInt8.toBitVec)=
      180::soleTxProof root leaf := by
    simp [Function.comp_def]
  have hlast : (soleTxApproval root leaf i).vout.getLast?=some ⟨0,
      [0x6a,0x4c,181,180]++(soleTxProof root leaf).map UInt8.ofBitVec⟩ := rfl
  simp only [approvalProof,hlast,hopret,hbytes,hpush,
    unmarshal_of_reads (reads_soleTxBlock root leaf)]

theorem fiveApprovals_confirmed (root leaf : Uint256) {txid : Uint256} (hmem : txid∈[1,2,3,4,5]) :
    (fiveApprovals root leaf).getTxConfirmed txid=
      some (soleTxApproval root leaf txid,⟨200,5⟩) := by
  have hfirst : (fiveApprovals root leaf).getTxUnconfirmed txid=
      some (soleTxApproval root leaf txid,1) := by
    have hsmall : ∀i∈[(1 : Uint256),2,3,4,5],0 < i.toNat ∧ i.toNat<6 := by simp
    exact if_pos (hsmall txid hmem)
  simp only [getTxConfirmed,hfirst]
  rfl

theorem fiveApprovals_signs {root leaf : Uint256} {key : Pubkey33} {merkleBlock : CMerkleBlock}
    (h : (fiveApprovals root leaf).Signs [1,2,3,4,5] key merkleBlock) :
    merkleBlock=soleTxBlock root leaf := by
  obtain ⟨txid,hmem,tx,block,pubkeys,htx,hproof,-⟩ := h
  rw [fiveApprovals_confirmed root leaf hmem] at htx
  obtain ⟨rfl,-⟩ := Prod.mk.inj (Option.some.inj htx)
  rw [approvalProof_soleTxApproval] at hproof
  exact (Option.some.inj hproof).symm

/-- When the proof passes, each of the five approvals counts its notary. -/
theorem fiveApprovals_accepted {root leaf burntxid : Uint256}
    (hpass : (fiveApprovals root leaf).proofPasses burntxid (soleTxBlock root leaf)=true) :
    (fiveApprovals root leaf).checkNotariesApproval burntxid [1,2,3,4,5]=true := by
  have hround : ∀s,∀txid∈[1,2,3,4,5],(fiveApprovals root leaf).approvalRound burntxid s txid=
      (fiveApprovals root leaf).countSigner (soleTxApproval root leaf txid)
        (Vector.ofFn fun i => [UInt8.ofNat i]) s := by
    intro s txid hmem
    simp only [approvalRound,fiveApprovals_confirmed root leaf hmem,approvalProof_soleTxApproval,
      if_pos hpass]
    rfl
  have hloop := List.foldl_ext _ _ (⟨0,[]⟩ : Approvals) hround
  have hcount : ([1,2,3,4,5].foldl (fun s txid => (fiveApprovals root leaf).countSigner
      (soleTxApproval root leaf txid) (Vector.ofFn fun i => [UInt8.ofNat i]) s) ⟨0,[]⟩).count=5 := by
    rfl
  simp only [checkNotariesApproval]
  rw [hloop,hcount]
  rfl

/-- Five genuine approvals of the burn 7. -/
theorem approval_of_no_forged_proof_five :
    (fiveApprovals 7 7).NoForgedProof [1,2,3,4,5] ∧
    (fiveApprovals 7 7).FiveApprove 7 [1,2,3,4,5] := by
  have hforged : (fiveApprovals 7 7).NoForgedProof [1,2,3,4,5] := by
    intro key merkleBlock hsigns
    rw [fiveApprovals_signs hsigns]
    decide +kernel
  exact ⟨hforged,approval_of_no_forged_proof (fiveApprovals 7 7) 7 [1,2,3,4,5] hforged
    (fiveApprovals_accepted (by decide +kernel))⟩

/-- Five notaries prove that some block holds the transaction 7, under a header
that names another root: the burn 9, which no proof mentions, is approved. -/
theorem forged_proofs_approve :
    ¬((fiveApprovals 8 7).checkNotariesApproval 9 [1,2,3,4,5]=true →
      (fiveApprovals 8 7).FiveApprove 9 [1,2,3,4,5]) := by
  intro hclaim
  obtain ⟨keys,-,hlen,hkeys⟩ := hclaim (fiveApprovals_accepted (by decide +kernel))
  obtain ⟨key,hkey⟩ := List.exists_mem_of_length_pos (by omega : 0<keys.length)
  obtain ⟨merkleBlock,hsigns,hproves⟩ := hkeys key hkey
  rw [fiveApprovals_signs hsigns] at hproves
  have hroot : ((fiveApprovals 8 7).extractMatches (soleTxBlock 8 7)).1≠8 := by decide +kernel
  exact hroot hproves.1

end Chain

end Zdeex.Crosschain
