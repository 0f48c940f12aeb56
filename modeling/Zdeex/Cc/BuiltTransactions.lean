import Zdeex.Cc.BuiltOutputs

namespace Zdeex.Cc

open Zdeex.Framework
open Zdeex.Script
open Zdeex.Coins
open Zdeex.Block
open Zdeex.Crosschain

namespace World

variable {W : World} {wal : Wallet}

section Separation

/-- The keys whose conditions a call may meet. -/
def CallKey (W : World) (wal : Wallet) (pk k : CPubKey) : Prop :=
  k=wal.mypk ∨ k=pk ∨ k=W.strayPk ∨ ∃e,k=W.unspendablePk e

/-- Outputs under conditions of these keys are known as such, and their addresses tell
apart codes and keys. -/
structure Separated (W : World) (keys : CPubKey → Prop) : Prop where
  payTo : ∀c,TokenCond keys c → isPayToCryptoCondition (W.ccPubKey c)=true
  address : ∀c c',TokenCond keys c → TokenCond keys c' → W.condAddress c=W.condAddress c' →
    c.codes.Perm c'.codes ∧ c.publicKeys.Perm c'.publicKeys

variable {keys : CPubKey → Prop}

theorem tokenCond_plain {e : UInt8} {pk : CPubKey} (hpk : keys pk) :
    TokenCond keys (makeCCcond1 e pk) := .inl ⟨e,pk,hpk,rfl⟩

theorem tokenCond_tokens {e f : UInt8} {pk : CPubKey} (hpk : keys pk) :
    TokenCond keys (makeTokensCCcond1 e f pk) :=
  .inr ⟨e,f,[pk],by simp,by simpa using hpk,rfl⟩

/-- What is tried for a key is recognised by its codes. -/
theorem Tried.recognised (hsep : W.Separated keys) {ecN e1 e2 : UInt8} {vouts vins : List CPubKey}
    {cond : CC} {pk : CPubKey} {n : Int} (hcond : TokenCond keys cond)
    (hkey : cond.publicKeys=[pk])
    (h : W.Tried ecN e1 e2 keys vouts vins ⟨n,W.ccPubKey cond⟩) :
    ∃codes : List (List UInt8),codes.Perm cond.codes ∧ [EVAL_TOKENS]∈codes ∧
      Recognised ecN e1 e2 vouts vins pk codes := by
  obtain ⟨c,hscript,hc,heval,hrec⟩ := h
  have haddr : W.condAddress c=W.condAddress cond := by
    unfold condAddress
    rw [← hscript]
  obtain ⟨hcodes,hkeys⟩ := hsep.address c cond hc hcond haddr
  rw [hkey] at hkeys
  exact ⟨c.codes,hcodes,heval,hrec pk (List.perm_singleton.mp hkeys)⟩

end Separation

section Built

/-- An output of the transaction is under a condition. -/
def HasCondition (tx : CTransaction) (k : Nat) : Prop :=
  ∃out,tx.vout[k]?=some out ∧ isPayToCryptoCondition out.scriptPubKey=true

/-- What a builder's transaction consists of: token inputs of the wallet, the outputs
that the builder set, others under no condition, and an op_return for one key. -/
structure Built (W : World) (wal : Wallet) (tokenid : Uint256) (pk : CPubKey) (oprets : Oprets)
    (vout : List CTxOut) (tx : CTransaction) (amount : Int) : Prop where
  inputs : W.TakesIn wal tokenid tx.vin amount
  outputs : ∃rest,(∀out∈rest,isPayToCryptoCondition out.scriptPubKey=false) ∧ rest≠[] ∧
    tx.vout=vout++rest
  decoded : decodeTokenOpRet W.strayPk (lastScript tx)=
    some ⟨chr 't',tokenid,[pk].filter (·≠[]),oprets⟩

theorem isPayToCryptoCondition_opret (tokenid : Uint256) (voutPubkeys : List CPubKey)
    (oprets : Oprets) :
    isPayToCryptoCondition (encodeTokenOpRet tokenid voutPubkeys oprets)=false := by
  have hop : ∀pc : List UInt8,getOp (0x6a::pc)=some (106,[],pc) := fun pc => by
    rw [getOp,if_neg (by decide)]
    rfl
  unfold isPayToCryptoCondition encodeTokenOpRet
  rw [hop]
  rfl

/-- A finalized transaction is built from what went in. -/
theorem built_of_finalize (hwal : wal.Fits W) {cp : CCcontract} {tokenid : Uint256}
    {vin : List CTxIn} {sel : List Unspent} {total txfee : Int} {vout : List CTxOut}
    {pk : CPubKey} {oprets oprets' : Oprets} {tx : CTransaction} (heval : cp.evalcode=EVAL_TOKENS)
    (he2 : cp.additionalTokensEvalcode2=(W.getNonfungibleData tokenid).headD 0)
    (hidle : ∀v∈vin,∀s,W.Signed wal cp v s → W.ismyvin EVAL_TOKENS s.scriptSig=false)
    (hsel : ∀u∈sel,u∈wal.setCCunspents (W.tokenAddr wal tokenid) ∧ W.HoldsTokens tokenid u)
    (hdecode : decodeTokenOpRet W.strayPk (encodeTokenOpRet tokenid [pk] oprets)=
      some ⟨chr 't',tokenid,[pk].filter (·≠[]),oprets'⟩)
    (h : W.finalizeCCTx wal cp (vin++vinsFor total 60 sel) vout txfee
      (encodeTokenOpRet tokenid [pk] oprets)=some tx) :
    W.Built wal tokenid pk oprets' vout tx (if total≠0 then amountOf sel else 0) := by
  obtain ⟨⟨ss,hperm,hall⟩,change,hchange,hvout⟩ :=
    finalizeCCTx_some hwal (by simp [encodeTokenOpRet]) h
  refine ⟨(takesIn_of_signed hwal heval he2 hidle hsel hall).perm hperm,
    ⟨change++[⟨0,encodeTokenOpRet tokenid [pk] oprets⟩],?_,by simp,hvout⟩,?_⟩
  · intro out hout
    rcases List.mem_append.mp hout with hin | hlast
    · exact hchange out hin
    · obtain rfl := List.mem_singleton.mp hlast
      exact isPayToCryptoCondition_opret tokenid [pk] oprets
  · have hlast : lastScript tx=encodeTokenOpRet tokenid [pk] oprets := by
      unfold lastScript
      rw [hvout]
      simp
    rw [hlast,hdecode]

variable {tokenid : Uint256} {pk : CPubKey} {oprets : Oprets} {vout : List CTxOut}
  {tx : CTransaction} {amount : Int}

/-- The op_return of a built transaction. -/
def transferOpRet (tokenid : Uint256) (pk : CPubKey) (oprets : Oprets) : TokenOpRet :=
  ⟨chr 't',tokenid,[pk].filter (·≠[]),oprets⟩

/-- The key of the op_return counts when it is valid and not that of the contract. -/
def Counts (W : World) (pk : CPubKey) : Prop := pk≠[] ∧ pk≠W.unspendablePk EVAL_TOKENS

instance (pk : CPubKey) : Decidable (W.Counts pk) := inferInstanceAs (Decidable (_ ∧ _))

theorem mem_voutPubkeys {k : CPubKey} :
    k∈W.filterOutTokensUnspendablePk (transferOpRet tokenid pk oprets).voutPubkeys ↔
      k=pk ∧ W.Counts pk := by
  unfold filterOutTokensUnspendablePk transferOpRet Counts
  rw [List.mem_filter,List.mem_filter,List.mem_singleton]
  constructor
  · rintro ⟨⟨rfl,hne⟩,hnot⟩
    exact ⟨rfl,of_decide_eq_true hne,of_decide_eq_true hnot⟩
  · rintro ⟨rfl,hne,hnot⟩
    exact ⟨⟨rfl,decide_eq_true hne⟩,decide_eq_true hnot⟩

theorem voutPubkeys_of_counts (h : W.Counts pk) :
    W.filterOutTokensUnspendablePk (transferOpRet tokenid pk oprets).voutPubkeys=[pk] := by
  have hvalid : [pk].filter (·≠[])=[pk] := List.filter_eq_self.mpr (by simp [h.1])
  have hother : [pk].filter (·≠W.unspendablePk EVAL_TOKENS)=[pk] :=
    List.filter_eq_self.mpr (by simp [h.2])
  unfold filterOutTokensUnspendablePk transferOpRet
  rw [hvalid,hother]

theorem voutPubkeys_few :
    (W.filterOutTokensUnspendablePk (transferOpRet tokenid pk oprets).voutPubkeys).length≤1 :=
  (List.length_filter_le _ _).trans (List.length_filter_le _ _)

theorem Built.vout_ne_nil (h : W.Built wal tokenid pk oprets vout tx amount) : tx.vout≠[] := by
  obtain ⟨rest,-,hne,hvout⟩ := h.outputs
  rw [hvout]
  simp [hne]

/-- Only the outputs that the builder set count. -/
theorem Built.balances_iff (h : W.Built wal tokenid pk oprets vout tx amount) (hwal : wal.Fits W)
    (site : Site) (hnull : tokenid≠0) {selected : Int} (hne : selected≠0) :
    W.Balances site tokenid tx selected ↔ amount=selected ∧
      (vout.map (W.transferValue tx (transferOpRet tokenid pk oprets) tokenid)).sum=selected ∧
        (site.AcceptsAll ∨ (W.getTransaction tokenid).isSome) := by
  have hsum : W.tokenOutputs tx tokenid=
      (vout.map (W.transferValue tx (transferOpRet tokenid pk oprets) tokenid)).sum := by
    obtain ⟨rest,hrest,hne,hvout⟩ := h.outputs
    have hzero : ((rest.dropLast).map
        (W.transferValue tx (transferOpRet tokenid pk oprets) tokenid)).sum=0 := by
      apply List.sum_eq_zero
      intro x hx
      obtain ⟨out,hout,rfl⟩ := List.mem_map.mp hx
      rw [transferValue,if_neg (by simp [hrest out (List.dropLast_subset _ hout)])]
    rw [tokenOutputs_transfer h.vout_ne_nil h.decoded rfl rfl hnull,hvout,
      List.dropLast_append_of_ne_nil hne,List.map_append,List.sum_append]
    exact (congrArg _ hzero).trans (add_zero _)
  rw [h.inputs.balances_iff hwal site h.vout_ne_nil h.decoded rfl rfl hnull hne,hsum]

theorem Built.hasCondition_iff (h : W.Built wal tokenid pk oprets vout tx amount) (k : Nat) :
    HasCondition tx k ↔ ∃out,vout[k]?=some out ∧ isPayToCryptoCondition out.scriptPubKey=true := by
  obtain ⟨rest,hrest,-,hvout⟩ := h.outputs
  unfold HasCondition
  rw [hvout]
  constructor
  · rintro ⟨out,hout,hcc⟩
    by_cases hlt : k<vout.length
    · rw [List.getElem?_append_left hlt] at hout
      exact ⟨out,hout,hcc⟩
    · rw [List.getElem?_append_right (by omega)] at hout
      have hnot := hrest out (List.mem_of_getElem? hout)
      rw [hcc] at hnot
      cases hnot
  · rintro ⟨out,hout,hcc⟩
    refine ⟨out,?_,hcc⟩
    have hlt := (List.getElem?_eq_some_iff.mp hout).1
    rw [List.getElem?_append_left hlt,hout]

section Values

variable {n : Int} {cond : CC} {k : CPubKey}

theorem Built.value_seen (hsep : W.Separated (W.CallKey wal pk))
    (hcond : TokenCond (W.CallKey wal pk) cond)
    (hmem : ⟨n,W.ccPubKey cond⟩∈W.testVouts tx (transferOpRet tokenid pk oprets) tokenid n) :
    W.transferValue tx (transferOpRet tokenid pk oprets) tokenid ⟨n,W.ccPubKey cond⟩=n := by
  rw [transferValue,if_pos ⟨hsep.payTo cond hcond,hmem⟩]

/-- An output to one key does not count when its codes are not recognised for the key. -/
theorem Built.value_unseen (h : W.Built wal tokenid pk oprets vout tx amount) (hwal : wal.Fits W)
    (hsep : W.Separated (W.CallKey wal pk)) (hcond : TokenCond (W.CallKey wal pk) cond)
    (hkey : cond.publicKeys=[k])
    (hbad : ∀codes : List (List UInt8),codes.Perm cond.codes → [EVAL_TOKENS]∈codes →
      ¬Recognised ((W.getNonfungibleData tokenid).headD 0)
        (tokenEvalCodes (W.getNonfungibleData tokenid) (filterOutNonCCOprets oprets)).1
        (tokenEvalCodes (W.getNonfungibleData tokenid) (filterOutNonCCOprets oprets)).2
        (W.filterOutTokensUnspendablePk (transferOpRet tokenid pk oprets).voutPubkeys)
        (W.filterOutTokensUnspendablePk (W.extractTokensCCVinPubkeys tx)) k codes) :
    W.transferValue tx (transferOpRet tokenid pk oprets) tokenid ⟨n,W.ccPubKey cond⟩=0 := by
  have hvins := (h.inputs.vinPubkeys hwal rfl).1
  rw [transferValue,if_neg]
  rintro ⟨-,hmem⟩
  have htried : W.Tried _ _ _ (W.CallKey wal pk) _ _ ⟨n,W.ccPubKey cond⟩ := tried_testVouts
    voutPubkeys_few (.inr (.inr (.inl rfl))) (fun e => .inr (.inr (.inr ⟨e,rfl⟩)))
    (fun q hq => .inr (.inl (mem_voutPubkeys.mp hq).1)) (fun q hq => .inl (hvins q hq)) hmem
  obtain ⟨codes,hperm,heval,hrec⟩ := Tried.recognised hsep hcond hkey htried
  exact hbad codes hperm heval hrec

end Values

/-- Outputs to the key of the op_return are tried. -/
theorem mem_testVouts_opret {out : CTxOut} {nValue : Int} (hpk : W.Counts pk)
    (hmem : out∈W.threeEvalVouts
        (tokenEvalCodes (W.getNonfungibleData tokenid) (filterOutNonCCOprets oprets)).1
        (tokenEvalCodes (W.getNonfungibleData tokenid) (filterOutNonCCOprets oprets)).2 nValue pk ∨
      out∈W.oneEvalVouts ((W.getNonfungibleData tokenid).headD 0)
        (tokenEvalCodes (W.getNonfungibleData tokenid) (filterOutNonCCOprets oprets)).1
        (tokenEvalCodes (W.getNonfungibleData tokenid) (filterOutNonCCOprets oprets)).2 nValue
        pk) :
    out∈W.testVouts tx (transferOpRet tokenid pk oprets) tokenid nValue := by
  unfold testVouts
  dsimp only
  rw [voutPubkeys_of_counts hpk]
  have hopret : out∈W.opretVouts ((W.getNonfungibleData tokenid).headD 0)
      (tokenEvalCodes (W.getNonfungibleData tokenid) (filterOutNonCCOprets oprets)).1
      (tokenEvalCodes (W.getNonfungibleData tokenid) (filterOutNonCCOprets oprets)).2 nValue
      [pk] := List.mem_append.mpr hmem
  exact List.mem_append_left _ (List.mem_append_left _ (List.mem_append_left _ hopret))

/-- Change to the key of the inputs is tried. -/
theorem Built.mem_testVouts_change (h : W.Built wal tokenid pk oprets vout tx amount)
    (hwal : wal.Fits W) (hne : amount≠0) {out : CTxOut} {nValue : Int}
    (hmem : out∈W.changeVouts ((W.getNonfungibleData tokenid).headD 0)
      (tokenEvalCodes (W.getNonfungibleData tokenid) (filterOutNonCCOprets oprets)).1
      (tokenEvalCodes (W.getNonfungibleData tokenid) (filterOutNonCCOprets oprets)).2 nValue
      wal.mypk) :
    out∈W.testVouts tx (transferOpRet tokenid pk oprets) tokenid nValue := by
  have hvin := (h.inputs.vinPubkeys hwal rfl).2 hne
  unfold testVouts
  dsimp only
  exact List.mem_append_right _ (List.mem_flatMap.mpr ⟨wal.mypk,hvin,hmem⟩)

end Built

/-- What a transaction should do with the tokens that were selected for an amount: the
outputs of tokens hold as much, the contract accepts it, and its change is at one place. -/
def Conserves (W : World) (site : Site) (tokenid : Uint256) (tx : CTransaction)
    (selected amount : Int) (k : Nat) : Prop :=
  W.Balances site tokenid tx selected ∧ (HasCondition tx k ↔ amount<selected)

section Decoding

variable {tokenid : Uint256} {pk : CPubKey}

theorem length_writeVector8_le (v : List UInt8) : (writeVector8 v).length≤v.length+9 := by
  rw [length_writeVector8]
  exact (length_writeBytes v).2

theorem length_transferHead_le (hpk : IsPubKey pk) : (transferHead tokenid [pk]).length≤109 := by
  have hkey := length_writeVector8_le pk
  have hshort := hpk.length_le
  have hhead : transferHead tokenid [pk]=[EVAL_TOKENS,chr 't']++
      (writeUint256 (revuint256 tokenid)++([1]++(writeVector8 pk++[]))) := rfl
  rw [hhead,writeUint256]
  simp only [List.length_append,List.length_cons,List.length_nil,List.length_map,length_toBytes]
  omega

/-- Data with id 0 are not written. -/
theorem decode_emptyData (hpk : IsPubKey pk) (stray : List UInt8) :
    decodeTokenOpRet stray (encodeTokenOpRet tokenid [pk] [(0,[])])=
      some ⟨chr 't',tokenid,[pk].filter (·≠[]),[]⟩ := by
  have hlen : (transferHead tokenid [pk]++writeOprets [(0,[])]).length<2^32 := by
    have hhead : (transferHead tokenid [pk]).length≤109 := length_transferHead_le hpk
    have hnone : writeOprets [((0 : UInt8),([] : List UInt8))]=[] := rfl
    rw [hnone,List.append_nil]
    omega
  rw [decodeTokenOpRet_transfer (by simp) (by simpa using hpk) hlen]
  have hold : readsOldstyle [((0 : UInt8),([] : List UInt8))]=false := by decide
  have hread : unmarshal8 readOprets (writeOprets [((0 : UInt8),([] : List UInt8))])=
      some [] := by decide
  rw [hold,if_neg Bool.false_ne_true,hread]
  rfl

/-- The data of an order are read back. -/
theorem decode_orderData {assetFuncId : UInt8} {assetid2 : Uint256} {price : Int}
    {origpubkey : List UInt8} (hpk : IsPubKey pk) (horder : IsOrder assetFuncId)
    (hsmall : origpubkey.length≤2^24) (stray : List UInt8) :
    decodeTokenOpRet stray (encodeTokenOpRet tokenid [pk]
        [(OPRETID_ASSETSDATA,encodeAssetOpRet assetFuncId assetid2 price origpubkey)])=
      some ⟨chr 't',tokenid,[pk].filter (·≠[]),
        [(OPRETID_ASSETSDATA,encodeAssetOpRet assetFuncId assetid2 price origpubkey)]⟩ := by
  have hno : ¬HasNoData assetFuncId := by
    rcases horder with rfl | rfl | rfl | rfl <;> decide
  have hblob : encodeAssetOpRet assetFuncId assetid2 price origpubkey=
      EVAL_ASSETS::([assetFuncId]++(writeInt64 price++writeVector8 origpubkey)) := by
    rw [encodeAssetOpRet,if_neg hno,if_pos horder]
    rfl
  have hsize : (encodeAssetOpRet assetFuncId assetid2 price origpubkey).length≤2^24+19 := by
    have hkey := length_writeVector8_le origpubkey
    rw [hblob,writeInt64]
    simp only [List.length_append,List.length_cons,List.length_nil,List.length_map,
      length_toBytes]
    omega
  have hid : ∀o∈[(OPRETID_ASSETSDATA,encodeAssetOpRet assetFuncId assetid2 price origpubkey)],
      o.1≠0 := by
    intro o ho
    rw [List.mem_singleton.mp ho]
    exact (by decide : OPRETID_ASSETSDATA≠0)
  have hlen : (transferHead tokenid [pk]++writeOprets
      [(OPRETID_ASSETSDATA,encodeAssetOpRet assetFuncId assetid2 price origpubkey)]).length<
        2^32 := by
    have hhead : (transferHead tokenid [pk]).length≤109 := length_transferHead_le hpk
    have hvector := length_writeVector8_le
      (encodeAssetOpRet assetFuncId assetid2 price origpubkey)
    rw [writeOprets_eq hid,List.flatMap_singleton,List.length_append,List.length_cons]
    dsimp only
    omega
  rw [decodeTokenOpRet_transfer (by simp) (by simpa using hpk) hlen,
    readsOldstyle_asset hblob,if_neg Bool.false_ne_true,unmarshal_oprets hid]
  · rfl
  · intro o ho
    rw [List.mem_singleton.mp ho]
    have hmax : 2^24+19≤MAX_SIZE := by decide
    exact hsize.trans hmax

end Decoding

end World

end Zdeex.Cc
