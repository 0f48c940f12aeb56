import Mathlib.Data.List.Forall2
import Zdeex.Cc.ConditionKeys
import Zdeex.Cc.TokenBuilders

namespace Zdeex.Cc

open Zdeex.Framework
open Zdeex.Script
open Zdeex.Coins
open Zdeex.Block
open Zdeex.Crosschain

/-- An input for an entry of the index. -/
def Unspent.vin (u : Unspent) : CTxIn := ⟨⟨u.txhash,u.index⟩,[]⟩

/-- What a builder may rely on: the wallet has a key of its own, the contracts have keys, normal
inputs and entries of the index are what they seem, signatures are as told, and the orders
that are found are short. -/
structure Wallet.Fits (W : World) (wal : Wallet) : Prop where
  key : wal.mypk≠[]
  own : ∀e,wal.mypk≠W.unspendablePk e
  assetsKey : IsPubKey (W.unspendablePk EVAL_ASSETS)
  assetsOwn : W.unspendablePk EVAL_ASSETS≠[] ∧
    W.unspendablePk EVAL_ASSETS≠W.unspendablePk EVAL_TOKENS
  normal : ∀amount maxinputs vins,wal.addNormalinputs amount maxinputs=some vins →
    ∀vin∈vins,(W.spentOut vin).isSome ∧ W.spendsCondition vin=false
  indexed : ∀addr,∀u∈wal.setCCunspents addr,∃out,W.spentOut u.vin=some out ∧
    W.getScriptAddress out.scriptPubKey=some addr ∧ out.nValue=u.satoshis
  normalSig : ∀tx n,W.getCryptoCondition (wal.signTx tx n)=none
  condSig : ∀tx n cond scriptSig,wal.ccSig tx n cond=some scriptSig →
    ∃cond',W.getCryptoCondition scriptSig=some cond' ∧ cond'.codes.Perm cond.codes ∧
      ∀pk,cond.publicKeys=[pk] → cond'.publicKeys=[pk]
  small : ∀txid tx b,W.getTransaction txid=some (tx,b) →
    (W.setAssetOrigpubkey wal tx).1.length≤2^24

namespace World

variable {W : World} {wal : Wallet}

section Selection

variable {cp : CCcontract} {tokenaddr : String} {tokenid : Uint256} {total : Int}
  {maxinputs : Nat}

/-- The entry is an output of tokens. -/
def HoldsTokens (W : World) (tokenid : Uint256) (u : Unspent) : Prop :=
  ∃vintx b,W.getTransaction u.txhash=some (vintx,b) ∧ 0<W.tokenAmount tokenid vintx u.index

/-- The inputs for the entries, unless their amounts are only added up. -/
def vinsFor (total : Int) (maxinputs : Nat) (sel : List Unspent) : List CTxIn :=
  if total≠0 ∧ maxinputs≠0 then sel.map Unspent.vin else []

def amountOf (sel : List Unspent) : Int := (sel.map Unspent.satoshis).sum

/-- The inputs are entries with tokens, and what they hold is added up. -/
theorem addTokenLoop_selects (threshold : Int) (vopretNonfungible : List UInt8)
    (us : List Unspent) (destaddr : String) (vin : List CTxIn) (totalinputs : Int) (n : Nat) :
    ∃sel : List Unspent,(∀u∈sel,u∈us ∧ W.HoldsTokens tokenid u) ∧
      W.addTokenLoop wal cp tokenaddr tokenid total maxinputs threshold vopretNonfungible us
          destaddr vin totalinputs n=
        (vin++vinsFor total maxinputs sel,totalinputs+amountOf sel) := by
  induction us generalizing destaddr vin totalinputs n with
  | nil =>
    refine ⟨[],by simp,?_⟩
    simp [addTokenLoop,vinsFor,amountOf]
  | cons it rest ih =>
    have hskip : ∀destaddr,∃sel : List Unspent,(∀u∈sel,u∈it::rest ∧ W.HoldsTokens tokenid u) ∧
        W.addTokenLoop wal cp tokenaddr tokenid total maxinputs threshold vopretNonfungible rest
          destaddr vin totalinputs n=
        (vin++vinsFor total maxinputs sel,totalinputs+amountOf sel) := by
      intro destaddr
      obtain ⟨sel,hsel,heq⟩ := ih destaddr vin totalinputs n
      exact ⟨sel,fun u hu => ⟨List.mem_cons_of_mem _ (hsel u hu).1,(hsel u hu).2⟩,heq⟩
    rw [addTokenLoop]
    by_cases hsmall : it.satoshis<threshold
    · rw [if_pos hsmall]
      exact hskip destaddr
    rw [if_neg hsmall]
    by_cases hthere : (vin.any fun i => i.prevout==⟨it.txhash,it.index⟩)=true
    · rw [if_pos hthere]
      exact hskip destaddr
    rw [if_neg hthere]
    cases hget : W.getTransaction it.txhash with
    | none => exact hskip destaddr
    | some p =>
      obtain ⟨vintx,b⟩ := p
      dsimp only
      generalize (W.getScriptAddress (W.voutAt vintx it.index).scriptPubKey).getD destaddr=
        destaddr'
      by_cases haddr : destaddr'≠tokenaddr ∧ destaddr'≠W.unspendableCCaddr cp.evalcode ∧
          destaddr'≠cp.unspendableaddr2
      · rw [if_pos haddr]
        exact hskip destaddr'
      rw [if_neg haddr]
      by_cases hamount : 0<W.tokenAmount tokenid vintx it.index ∧
          wal.spentInMempool it.txhash it.index=false
      swap
      · rw [if_neg hamount]
        exact hskip destaddr'
      rw [if_pos hamount]
      by_cases hdata : vopretNonfungible≠[] ∧ W.getNonfungibleData tokenid≠vopretNonfungible
      · rw [if_pos hdata]
        exact hskip destaddr'
      rw [if_neg hdata]
      have hvin : (if total≠0 ∧ maxinputs≠0 then vin++[⟨⟨it.txhash,it.index⟩,[]⟩] else vin)=
          vin++vinsFor total maxinputs [it] := by
        unfold vinsFor
        split_ifs <;> simp [Unspent.vin]
      have hit : W.HoldsTokens tokenid it := ⟨vintx,b,hget,hamount.1⟩
      rw [hvin]
      by_cases hstop : (0<total ∧ total≤totalinputs+it.satoshis) ∨ (0 < maxinputs ∧ maxinputs≤n+1)
      · rw [if_pos hstop]
        refine ⟨[it],?_,by simp [amountOf]⟩
        intro u hu
        obtain rfl := List.mem_singleton.mp hu
        exact ⟨List.mem_cons_self ..,hit⟩
      · rw [if_neg hstop]
        obtain ⟨sel,hsel,heq⟩ := ih destaddr' (vin++vinsFor total maxinputs [it])
          (totalinputs+it.satoshis) (n+1)
        refine ⟨it::sel,?_,?_⟩
        · intro u hu
          rcases List.mem_cons.mp hu with rfl | hmem
          · exact ⟨List.mem_cons_self ..,hit⟩
          · exact ⟨List.mem_cons_of_mem _ (hsel u hmem).1,(hsel u hmem).2⟩
        · rw [heq]
          unfold vinsFor amountOf
          split_ifs <;> simp [add_assoc]

/-- The record and the data that a builder goes on with. -/
theorem tokenInputsFor_cp (W : World) (wal : Wallet) (tokenid : Uint256) (vin : List CTxIn)
    (total : Int) :
    (W.tokenInputsFor wal tokenid vin total).cp=
        ⟨EVAL_TOKENS,(W.getNonfungibleData tokenid).headD 0,0,[],""⟩ ∧
      (W.tokenInputsFor wal tokenid vin total).vopretNonfungible=W.getNonfungibleData tokenid := by
  refine ⟨?_,rfl⟩
  unfold tokenInputsFor addTokenCCInputs
  dsimp only
  cases W.getNonfungibleData tokenid with
  | nil => rfl
  | cons c cs => rfl

/-- The address at which a wallet looks for tokens. -/
def tokenAddr (W : World) (wal : Wallet) (tokenid : Uint256) : String :=
  W.getTokensCCaddress EVAL_TOKENS ((W.getNonfungibleData tokenid).headD 0) wal.mypk

theorem tokenInputsFor_selects (W : World) (wal : Wallet) (tokenid : Uint256) (vin : List CTxIn)
    (total : Int) :
    ∃sel : List Unspent,
      (∀u∈sel,u∈wal.setCCunspents (W.tokenAddr wal tokenid) ∧ W.HoldsTokens tokenid u) ∧
        (W.tokenInputsFor wal tokenid vin total).vin=vin++vinsFor total 60 sel ∧
        (W.tokenInputsFor wal tokenid vin total).totalinputs=amountOf sel := by
  have hcp := (tokenInputsFor_cp W wal tokenid vin total).1
  have hloop : ∀cp tokenaddr,∃sel : List Unspent,
      (∀u∈sel,u∈wal.setCCunspents tokenaddr ∧ W.HoldsTokens tokenid u) ∧
        W.addTokenLoop wal cp tokenaddr tokenid total 60 _ _ (wal.setCCunspents tokenaddr)
          wal.strayAddr vin 0 0=(vin++vinsFor total 60 sel,0+amountOf sel) := fun cp tokenaddr =>
    addTokenLoop_selects (total.tdiv 60) (W.getNonfungibleData tokenid)
      (wal.setCCunspents tokenaddr) wal.strayAddr vin 0 0
  unfold tokenInputsFor addTokenCCInputs at hcp ⊢
  dsimp only at hcp ⊢
  rw [hcp]
  obtain ⟨sel,hsel,heq⟩ := hloop ⟨EVAL_TOKENS,(W.getNonfungibleData tokenid).headD 0,0,[],""⟩
    (W.tokenAddr wal tokenid)
  refine ⟨sel,hsel,?_⟩
  constructor
  · exact congrArg Prod.fst heq
  · exact (congrArg Prod.snd heq).trans (zero_add _)

end Selection

section Signing

variable {cp : CCcontract}

/-- A normal input does not show a condition; any other shows one as that of its address. -/
def Signed (W : World) (wal : Wallet) (cp : CCcontract) (vin signed : CTxIn) : Prop :=
  signed.prevout=vin.prevout ∧ ∃out,W.spentOut vin=some out ∧
    ((isPayToCryptoCondition out.scriptPubKey=false ∧
        W.getCryptoCondition signed.scriptSig=none) ∨
      (isPayToCryptoCondition out.scriptPubKey=true ∧ ∃destaddr cond cond',
        (∀a,W.getScriptAddress out.scriptPubKey=some a → destaddr=a) ∧
        W.condFor wal cp destaddr=some cond ∧ W.getCryptoCondition signed.scriptSig=some cond' ∧
        cond'.codes.Perm cond.codes ∧ ∀pk,cond.publicKeys=[pk] → cond'.publicKeys=[pk]))

theorem signLoop_signed (hwal : wal.Fits W) {mtx : CTransaction} {vins signed res : List CTxIn}
    {destaddr : String} (hfound : ∀vin∈vins,(W.spentOut vin).isSome)
    (h : W.signLoop wal cp mtx vins signed destaddr=some res) :
    ∃ss,res=signed++ss ∧ List.Forall₂ (W.Signed wal cp) vins ss := by
  induction vins generalizing signed destaddr with
  | nil =>
    obtain rfl := Option.some.inj h
    exact ⟨[],(List.append_nil signed).symm,List.Forall₂.nil⟩
  | cons vin rest ih =>
    have hrest : ∀v∈rest,(W.spentOut v).isSome := fun v hv =>
      hfound v (List.mem_cons_of_mem _ hv)
    have hgoon : ∀scriptSig destaddr,
        W.Signed wal cp vin {vin with scriptSig := scriptSig} →
        W.signLoop wal cp mtx rest (signed++[{vin with scriptSig := scriptSig}]) destaddr=
          some res →
        ∃ss,res=signed++ss ∧ List.Forall₂ (W.Signed wal cp) (vin::rest) ss := by
      intro scriptSig destaddr hsigned hloop
      obtain ⟨ss,hres,hall⟩ := ih hrest hloop
      exact ⟨_::ss,by rw [hres,List.append_assoc,List.singleton_append],
        List.Forall₂.cons hsigned hall⟩
    obtain ⟨out,hout⟩ := Option.isSome_iff_exists.mp (hfound vin (List.mem_cons_self ..))
    rw [signLoop,hout] at h
    dsimp only at h
    cases hcc : isPayToCryptoCondition out.scriptPubKey with
    | false =>
      rw [if_pos hcc] at h
      refine hgoon (wal.signTx _ signed.length) destaddr ?_ h
      exact ⟨rfl,out,hout,.inl ⟨hcc,hwal.normalSig _ _⟩⟩
    | true =>
      rw [if_neg (by simp [hcc])] at h
      generalize haddr : (W.getScriptAddress out.scriptPubKey).getD destaddr=destaddr' at h
      have hknown : ∀a,W.getScriptAddress out.scriptPubKey=some a → destaddr'=a := by
        intro a ha
        rw [← haddr,ha,Option.getD_some]
      cases hcond : W.condFor wal cp destaddr' with
      | none =>
        rw [hcond] at h
        cases h
      | some cond =>
        rw [hcond] at h
        dsimp only at h
        cases hsig : wal.ccSig {mtx with vin := signed++vin::rest} signed.length cond with
        | none =>
          rw [hsig] at h
          cases h
        | some scriptSig =>
          rw [hsig] at h
          obtain ⟨cond',hread,hcodes,hkeys⟩ := hwal.condSig _ _ _ _ hsig
          exact hgoon scriptSig destaddr' ⟨rfl,out,hout,
            .inr ⟨hcc,destaddr',cond,cond',hknown,hcond,hread,hcodes,hkeys⟩⟩ h

/-- The order of the inputs is all that changes. -/
theorem reorderVins_perm (vin : List CTxIn) : (W.reorderVins vin).Perm vin := by
  unfold reorderVins
  dsimp only
  generalize (vin.takeWhile fun i => !W.spendsCondition i).length=n
  split_ifs with hn
  · have htake : (vin.take n).take 1=vin.take 1 := by
      rw [List.take_take,Nat.min_eq_left hn.1.le]
    have hall : vin.take 1++((vin.take n).drop 1++vin.drop n)=vin := by
      rw [← htake,← List.append_assoc,List.take_append_drop,List.take_append_drop]
    have hswap : (vin.take 1++(vin.drop n++(vin.take n).drop 1)).Perm
        (vin.take 1++((vin.take n).drop 1++vin.drop n)) :=
      List.perm_append_comm.append_left (vin.take 1)
    rw [hall] at hswap
    exact hswap
  · exact List.Perm.refl vin

/-- A short push is read back, whatever follows. -/
theorem getOp_shortPush {b : List UInt8} (hb : b.length<OP_PUSHDATA1) (rest : List UInt8) :
    getOp (pushData b++rest)=some (b.length,b,rest) := by
  have hshort : b.length<76 := hb
  have hbyte : (UInt8.ofBitVec (BitVec.ofNat 8 b.length)).toNat=b.length := by
    change b.length%2^8=b.length
    omega
  have hscript : pushData b++rest=UInt8.ofBitVec (BitVec.ofNat 8 b.length)::(b++rest) := by
    rw [pushData,if_pos hb]
    rfl
  rw [hscript,getOp,hbyte,if_pos (by unfold OP_PUSHDATA4; omega),pushSize,if_pos hb]
  dsimp only
  rw [if_neg (by simp),List.take_left,List.drop_left]

/-- A payment to a key is not one to a condition. -/
theorem isPayToCryptoCondition_key {pk : CPubKey} (hpk : pk.length≤65) :
    isPayToCryptoCondition (pushData pk++[0xac])=false := by
  have hlast : getOp [(0xac : UInt8)]=some (0xac,[],[]) := by decide
  unfold isPayToCryptoCondition
  rw [getOp_shortPush (by unfold OP_PUSHDATA1; omega)]
  dsimp only
  rw [hlast]
  split_ifs <;> rfl

theorem length_mypk_le (wal : Wallet) : wal.mypk.length≤65 :=
  (isPubKey_pubkey2pk wal.mypubkey).length_le

/-- What a builder returns: its inputs signed in some order, its outputs, normal change
and the op_return. -/
theorem finalizeCCTx_some (hwal : wal.Fits W) {vin : List CTxIn} {vout : List CTxOut}
    {txfee : Int} {opret : List UInt8} {tx : CTransaction} (hopret : opret≠[])
    (h : W.finalizeCCTx wal cp vin vout txfee opret=some tx) :
    (∃ss,ss.Perm tx.vin ∧ List.Forall₂ (W.Signed wal cp) vin ss) ∧
      ∃change : List CTxOut,(∀out∈change,isPayToCryptoCondition out.scriptPubKey=false) ∧
        tx.vout=vout++(change++[⟨0,opret⟩]) := by
  unfold finalizeCCTx at h
  split_ifs at h with hmany hmissing
  have hfound : ∀v∈W.reorderVins vin,(W.spentOut v).isSome := by
    intro v hv
    have hmem := (reorderVins_perm vin).subset hv
    by_contra hnone
    exact hmissing (List.any_eq_true.mpr ⟨v,hmem,by simpa using hnone⟩)
  dsimp only at h
  obtain ⟨signed,hsign,rfl⟩ := Option.map_eq_some_iff.mp h
  obtain ⟨ss,hres,hall⟩ := signLoop_signed hwal hfound hsign
  rw [List.nil_append] at hres
  obtain ⟨ss',hss,hperm⟩ := List.perm_comp_forall₂ (reorderVins_perm vin).symm hall
  refine ⟨⟨ss',?_,hss⟩,W.normalChange wal (W.reorderVins vin) vout txfee,?_,?_⟩
  · rw [hres]
    exact hperm
  · intro out hout
    unfold normalChange at hout
    dsimp only at hout
    split_ifs at hout
    · obtain rfl := List.mem_singleton.mp hout
      exact isPayToCryptoCondition_key (length_mypk_le wal)
    · cases hout
  · rfl

end Signing

section Inputs

variable {cp : CCcontract} {tokenid : Uint256}

/-- Tokens are found in outputs under conditions, and only of a token with an id. -/
theorem tokenAmount_pos {tx : CTransaction} {v : Nat} (h : 0<W.tokenAmount tokenid tx v) :
    tokenid≠0 ∧ ∃out,tx.vout[v]?=some out ∧ isPayToCryptoCondition out.scriptPubKey=true ∧
      W.tokenAmount tokenid tx v=out.nValue := by
  have heq : W.tokenAmount tokenid tx v=W.voutValue tx v tokenid := by
    rw [tokenAmount,isTokensvout_deep] at h ⊢
    split_ifs at h ⊢
    · omega
    · rfl
  rw [heq] at h ⊢
  refine ⟨?_,?_⟩
  · rintro rfl
    unfold voutValue at h
    cases hout : conditionVout? tx v with
    | none =>
      rw [hout] at h
      exact absurd h (lt_irrefl 0)
    | some out =>
      rw [hout] at h
      dsimp only at h
      have hnone : W.validateTokenOpret tx 0=none := by
        unfold validateTokenOpret
        cases decodeTokenOpRet W.strayPk (lastScript tx) with
        | none => simp
        | some r => simp
      rw [opretValue,hnone] at h
      exact absurd h (lt_irrefl 0)
  · rcases W.voutValue_cases (T := tokenid) tx v with hzero | hout
    · omega
    · exact hout

/-- Inputs that take tokens in do so with the wallet's key. -/
structure TakesIn (W : World) (wal : Wallet) (tokenid : Uint256) (vins : List CTxIn)
    (amount : Int) : Prop where
  found : ∀vin∈vins,W.ismyvin EVAL_TOKENS vin.scriptSig=true →
    (W.getTransaction vin.prevout.hash).isSome
  keys : ∀vin∈vins,W.ismyvin EVAL_TOKENS vin.scriptSig=true →
    ∃cond,W.getCryptoCondition vin.scriptSig=some cond ∧ cond.publicKeys=[wal.mypk]
  sum : (vins.map (W.inputAmount (W.tokenAmount tokenid))).sum=amount

theorem takesIn_nil : W.TakesIn wal tokenid [] 0 := ⟨by simp,by simp,rfl⟩

theorem TakesIn.perm {vins vins' : List CTxIn} {amount : Int}
    (h : W.TakesIn wal tokenid vins amount) (hperm : vins.Perm vins') :
    W.TakesIn wal tokenid vins' amount :=
  ⟨fun vin hvin => h.found vin (hperm.symm.subset hvin),
    fun vin hvin => h.keys vin (hperm.symm.subset hvin),
    (hperm.map _).sum_eq.symm.trans h.sum⟩

theorem TakesIn.cons {vin : CTxIn} {vins : List CTxIn} {amount amount' : Int}
    (h : W.TakesIn wal tokenid vins amount)
    (hfound : W.ismyvin EVAL_TOKENS vin.scriptSig=true →
      (W.getTransaction vin.prevout.hash).isSome)
    (hkey : W.ismyvin EVAL_TOKENS vin.scriptSig=true →
      ∃cond,W.getCryptoCondition vin.scriptSig=some cond ∧ cond.publicKeys=[wal.mypk])
    (hamount : W.inputAmount (W.tokenAmount tokenid) vin=amount') :
    W.TakesIn wal tokenid (vin::vins) (amount'+amount) := by
  refine ⟨?_,?_,?_⟩
  · intro v hv
    rcases List.mem_cons.mp hv with rfl | hmem
    · exact hfound
    · exact h.found v hmem
  · intro v hv
    rcases List.mem_cons.mp hv with rfl | hmem
    · exact hkey
    · exact h.keys v hmem
  · rw [List.map_cons,List.sum_cons,hamount,h.sum]

/-- The condition of the wallet's tokens is one of the first two that are compared. -/
theorem condFor_tokenAddr {cond : CC} (heval : cp.evalcode=EVAL_TOKENS)
    (he2 : cp.additionalTokensEvalcode2=(W.getNonfungibleData tokenid).headD 0)
    (h : W.condFor wal cp (W.tokenAddr wal tokenid)=some cond) :
    [EVAL_TOKENS]∈cond.codes ∧ cond.publicKeys=[wal.mypk] := by
  unfold condFor condTable at h
  dsimp only at h
  rw [heval,he2,List.find?_cons] at h
  split at h
  · obtain rfl := Option.some.inj h
    exact ⟨List.mem_singleton_self _,rfl⟩
  · have hsame : (W.getTokensCCaddress EVAL_TOKENS ((W.getNonfungibleData tokenid).headD 0)
        wal.mypk==W.tokenAddr wal tokenid)=true := beq_self_eq_true _
    rw [List.find?_cons,hsame] at h
    obtain rfl := Option.some.inj h
    refine ⟨?_,publicKeys_makeTokensCond _ _ _⟩
    rw [makeTokensCCcond1,codes_makeTokensCond]
    exact tokens_mem_tokenCodes _ _

theorem ismyvin_of_codes {scriptSig : List UInt8} {cond : CC} {e : UInt8}
    (h : W.getCryptoCondition scriptSig=some cond) :
    W.ismyvin e scriptSig=decide ([e]∈cond.codes) := by
  rw [ismyvin,h]
  exact any_isEval cond e

theorem inputAmount_idle {f : CTransaction → Nat → Int} {vin : CTxIn}
    (h : W.ismyvin EVAL_TOKENS vin.scriptSig=false) : W.inputAmount f vin=0 := by
  rw [inputAmount,if_neg (by simp [h])]

theorem Signed.idle_of_normal {vin signed : CTxIn} (h : W.Signed wal cp vin signed)
    (hnormal : W.spendsCondition vin=false) : W.ismyvin EVAL_TOKENS signed.scriptSig=false := by
  obtain ⟨-,out,hout,⟨-,hnone⟩ | ⟨hcc,-⟩⟩ := h
  · rw [ismyvin,hnone]
  · rw [spendsCondition,hout,Option.map_some,Option.getD_some,hcc] at hnormal
    cases hnormal

/-- A signed input of tokens adds what its entry says. -/
theorem Signed.token (hwal : wal.Fits W) {u : Unspent} {signed : CTxIn}
    (heval : cp.evalcode=EVAL_TOKENS)
    (he2 : cp.additionalTokensEvalcode2=(W.getNonfungibleData tokenid).headD 0)
    (hu : u∈wal.setCCunspents (W.tokenAddr wal tokenid)) (htokens : W.HoldsTokens tokenid u)
    (h : W.Signed wal cp u.vin signed) :
    (W.getTransaction signed.prevout.hash).isSome ∧
      (∃cond,W.getCryptoCondition signed.scriptSig=some cond ∧ cond.publicKeys=[wal.mypk]) ∧
      W.inputAmount (W.tokenAmount tokenid) signed=u.satoshis := by
  obtain ⟨vintx,b,hget,hpos⟩ := htokens
  obtain ⟨-,out,hout,hcc,hamount⟩ := tokenAmount_pos hpos
  have hspent : W.spentOut u.vin=some out := by
    unfold spentOut Unspent.vin
    dsimp only
    rw [hget]
    exact hout
  obtain ⟨out',hout',haddr,hvalue⟩ := hwal.indexed _ u hu
  rw [hspent] at hout'
  obtain rfl := Option.some.inj hout'
  obtain ⟨hprevout,out',hout',hsigned⟩ := h
  rw [hspent] at hout'
  obtain rfl := Option.some.inj hout'
  have hget' : W.getTransaction signed.prevout.hash=some (vintx,b) := by
    rw [hprevout]
    exact hget
  rcases hsigned with ⟨hnot,-⟩ | ⟨-,destaddr,cond,cond',hknown,hcond,hread,hcodes,hkeys⟩
  · rw [hcc] at hnot
    cases hnot
  · obtain rfl := hknown _ haddr
    obtain ⟨heval',hkey⟩ := condFor_tokenAddr heval he2 hcond
    have hmine : W.ismyvin EVAL_TOKENS signed.scriptSig=true := by
      rw [ismyvin_of_codes hread]
      exact decide_eq_true (hcodes.symm.subset heval')
    refine ⟨by rw [hget']; rfl,⟨cond',hread,hkeys _ hkey⟩,?_⟩
    rw [inputAmount,if_pos hmine,hget',hprevout]
    exact hamount.trans hvalue

/-- The token inputs of a built transaction are the entries that were selected, when the
other inputs do not spend tokens. -/
theorem takesIn_of_signed (hwal : wal.Fits W) {vin : List CTxIn} {sel : List Unspent}
    {total : Int} {ss : List CTxIn} (heval : cp.evalcode=EVAL_TOKENS)
    (he2 : cp.additionalTokensEvalcode2=(W.getNonfungibleData tokenid).headD 0)
    (hidle : ∀v∈vin,∀s,W.Signed wal cp v s → W.ismyvin EVAL_TOKENS s.scriptSig=false)
    (hsel : ∀u∈sel,u∈wal.setCCunspents (W.tokenAddr wal tokenid) ∧ W.HoldsTokens tokenid u)
    (hall : List.Forall₂ (W.Signed wal cp) (vin++vinsFor total 60 sel) ss) :
    W.TakesIn wal tokenid ss (if total≠0 then amountOf sel else 0) := by
  induction vin generalizing ss with
  | nil =>
    rw [List.nil_append,vinsFor] at hall
    by_cases htotal : total=0
    · rw [if_neg (by simp [htotal])] at hall
      rw [if_neg (by simp [htotal])]
      cases hall
      exact takesIn_nil
    rw [if_pos ⟨htotal,by decide⟩] at hall
    rw [if_pos htotal]
    clear hidle
    induction sel generalizing ss with
    | nil =>
      cases hall
      exact takesIn_nil
    | cons u sel ih =>
      obtain ⟨s,ss',hsigned,hrest,rfl⟩ := List.forall₂_cons_left_iff.mp hall
      obtain ⟨hfound,hkey,hamount⟩ := hsigned.token hwal heval he2
        (hsel u (List.mem_cons_self ..)).1 (hsel u (List.mem_cons_self ..)).2
      have hih := ih (fun u hu => hsel u (List.mem_cons_of_mem _ hu)) hrest
      exact hih.cons (fun _ => hfound) (fun _ => hkey) hamount
  | cons v vin ih =>
    obtain ⟨s,ss',hsigned,hrest,rfl⟩ := List.forall₂_cons_left_iff.mp hall
    have hnot := hidle v (List.mem_cons_self ..) s hsigned
    have hih := ih (fun v hv => hidle v (List.mem_cons_of_mem _ hv)) hrest
    have hidle' : ¬W.ismyvin EVAL_TOKENS s.scriptSig=true := by simp [hnot]
    have hcons := hih.cons (fun h => absurd h hidle') (fun h => absurd h hidle')
      (inputAmount_idle hnot)
    rw [zero_add] at hcons
    exact hcons

end Inputs

end World

end Zdeex.Cc
