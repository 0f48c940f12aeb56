import Mathlib.Tactic.Common
import Zdeex.Cc.Dispatch
import Zdeex.Cc.FillPrice
import Zdeex.Cc.ImportPayouts

namespace Zdeex.Cc

open Zdeex.Framework
open Zdeex.Coins
open Zdeex.Block
open Zdeex.Crosschain

/-- A call of the asset contract for a non-fungible asset, which writes its record. -/
def EvalCall.NonFungible (call : EvalCall) : Prop :=
  call.node.readsAsset call.code call.tx=true ∧
    ∃r,decodeAssetTokenOpRet call.node.world.strayPk (lastScript call.tx)=some r ∧
      call.node.world.getNonfungibleData r.assetid≠[]

/-- A call whose asset is non-fungible, or whose function does not look at an address
that the record is part of: of the functions that can be accepted only the cancellation
of a bid does not. -/
def EvalCall.Unaffected (call : EvalCall) : Prop :=
  ∀r,decodeAssetTokenOpRet call.node.world.strayPk (lastScript call.tx)=some r →
    call.node.world.getNonfungibleData r.assetid≠[] ∨
      (r.funcid≠chr 'o' ∧ r.funcid≠chr 'B' ∧ r.funcid≠chr 'x' ∧ r.funcid≠chr 'S') ∨
      (r.funcid=chr 'o' ∧ ∀cond,call.node.world.condAddress cond≠"")

theorem recordAfter_eq {call : EvalCall} (h : ¬call.NonFungible) (e2 : UInt8) :
    call.node.recordAfter e2 call.code call.tx=e2 := by
  unfold EvalNode.recordAfter
  split
  next hreads =>
    unfold World.assetEvalcode2
    cases hr : decodeAssetTokenOpRet call.node.world.strayPk (lastScript call.tx) with
    | none => rfl
    | some r =>
      have hdata : call.node.world.getNonfungibleData r.assetid=[] := by
        by_contra hne
        exact h ⟨hreads,r,hr,hne⟩
      dsimp only
      rw [hdata]
      rfl
  next => rfl

/-- Calls for fungible assets leave the record as it was at the start. -/
theorem recordOf_eq_zero {history : List EvalCall} (h : ∀call∈history,¬call.NonFungible) :
    recordOf history=0 := by
  have hfold : ∀e2,history.foldl (fun e2 call => call.node.recordAfter e2 call.code call.tx) e2=
      e2 := by
    induction history with
    | nil => exact fun _ => rfl
    | cons call rest ih =>
      intro e2
      rw [List.foldl_cons,recordAfter_eq (h call List.mem_cons_self)]
      exact ih (fun c hc => h c (List.mem_cons_of_mem call hc)) e2
  exact hfold 0

namespace World

variable {W : World} {tx : CTransaction} {r : AssetOpRet}

/-- What a cancellation reads of the input that it spends. -/
def CCvin.Alike (v v' : CCvin) : Prop :=
  v.nValue=v'.nValue ∧ v.vinTx=v'.vinTx ∧ v.origaddr=v'.origaddr

def Order.Alike (o o' : Order) : Prop :=
  o.nValue=o'.nValue ∧ o.origaddr=o'.origaddr

/-- The record does not decide whether an order has addresses, nor the normal one. -/
theorem getAssetorigaddrs_normal (hW : ∀cond,W.condAddress cond≠"") (e2 e2' : UInt8)
    (vintx : CTransaction) :
    (W.getAssetorigaddrs e2 vintx).map Prod.snd=(W.getAssetorigaddrs e2' vintx).map Prod.snd := by
  unfold getAssetorigaddrs
  cases decodeAssetTokenOpRet W.strayPk (lastScript vintx) with
  | none => rfl
  | some r =>
    dsimp only
    split
    · rw [getTokensCCaddress,getTokensCCaddress,if_neg (hW _),if_neg (hW _),Option.map_map,
        Option.map_map]
      rfl
    · rfl

theorem assetValidateCCvin_alike (hW : ∀cond,W.condAddress cond≠"") (e2 e2' : UInt8) :
    Matches CCvin.Alike (W.assetValidateCCvin e2 (chr 'o') tx)
      (W.assetValidateCCvin e2' (chr 'o') tx) := by
  unfold assetValidateCCvin
  rcases tx.vin with _ | ⟨vin0,_ | ⟨vin1,rest⟩⟩
  · exact Matches.fails
  · exact Matches.fails
  · apply Matches.failIf
    cases W.getTransaction vin1.prevout.hash with
    | none => exact Matches.fails
    | some p =>
      have haddress : ∀script,W.isOrderAddress e2 (chr 'o') script=
          W.isOrderAddress e2' (chr 'o') script := by
        intro script
        unfold isOrderAddress
        rw [if_neg (by decide),if_neg (by decide)]
      dsimp only
      rw [haddress]
      apply Matches.failIf
      have hnormal := getAssetorigaddrs_normal hW e2 e2' p.1
      rcases hown : W.getAssetorigaddrs e2 p.1 with _ | ⟨ccaddr,addr⟩
      · rcases hother : W.getAssetorigaddrs e2' p.1 with _ | ⟨ccaddr',addr'⟩
        · exact Matches.fails
        · rw [hown,hother] at hnormal
          cases hnormal
      · rcases hother : W.getAssetorigaddrs e2' p.1 with _ | ⟨ccaddr',addr'⟩
        · rw [hown,hother] at hnormal
          cases hnormal
        · rw [hown,hother] at hnormal
          obtain rfl : addr=addr' := Option.some.inj hnormal
          exact Matches.failIf (Matches.some ⟨rfl,rfl,rfl⟩)

theorem assetValidateBuyvin_alike (hW : ∀cond,W.condAddress cond≠"") (e2 e2' : UInt8)
    (refassetid : Uint256) :
    Matches Order.Alike (W.assetValidateBuyvin e2 (chr 'o') tx refassetid)
      (W.assetValidateBuyvin e2' (chr 'o') tx refassetid) := by
  apply Matches.whenSome (assetValidateCCvin_alike hW e2 e2')
  rintro v v' ⟨hvalue,hvinTx,haddr⟩
  unfold buyvinOrder
  rw [hvinTx]
  apply Matches.failIf
  cases decodeAssetTokenOpRet W.strayPk (lastScript v'.vinTx) with
  | none => exact Matches.fails
  | some r => exact Matches.failIf (Matches.failIf (Matches.failIf (Matches.some ⟨hvalue,haddr⟩)))

/-- The record plays no part for functions that are refused at once and for the
cancellation of a bid. -/
theorem validateAssetFuncid_unaffected (e2 e2' : UInt8) (inputs : Int)
    (h : (r.funcid≠chr 'o' ∧ r.funcid≠chr 'B' ∧ r.funcid≠chr 'x' ∧ r.funcid≠chr 'S') ∨
      (r.funcid=chr 'o' ∧ ∀cond,W.condAddress cond≠"")) :
    W.validateAssetFuncid e2 tx r inputs=W.validateAssetFuncid e2' tx r inputs := by
  unfold validateAssetFuncid
  obtain ⟨ho,hB,hx,hS⟩ | ⟨ho,hW⟩ := h
  · simp only [ho,hB,hx,hS,if_false]
  · rw [ho,if_neg (by decide),if_pos rfl,if_neg (by decide),if_pos rfl]
    apply Matches.whenSome_eq (assetValidateBuyvin_alike hW e2 e2' r.assetid)
    rintro o o' ⟨hvalue,haddr⟩
    unfold cancelbuy
    rw [hvalue,haddr]

theorem assetsValidate_congr {e2 e2' : UInt8}
    (h : ∀r inputs,decodeAssetTokenOpRet W.strayPk (lastScript tx)=some r →
      W.validateAssetFuncid e2 tx r inputs=W.validateAssetFuncid e2' tx r inputs) :
    W.assetsValidate e2 tx=W.assetsValidate e2' tx := by
  unfold assetsValidate
  cases hr : decodeAssetTokenOpRet W.strayPk (lastScript tx) with
  | none => rfl
  | some r =>
    have hfunc : W.validateAssetFuncid e2 tx r=W.validateAssetFuncid e2' tx r :=
      funext fun inputs => h r inputs hr
    dsimp only
    rw [hfunc]

end World

theorem dispatch_congr {call : EvalCall} (h : call.Unaffected) (e2 e2' : UInt8) :
    call.node.dispatch e2 call.code call.tx=call.node.dispatch e2' call.code call.tx := by
  have hassets : call.node.world.assetsValidate (call.node.world.assetEvalcode2 e2 call.tx) call.tx=
      call.node.world.assetsValidate (call.node.world.assetEvalcode2 e2' call.tx) call.tx := by
    apply World.assetsValidate_congr
    intro r inputs hr
    obtain hdata | hfunc := h r hr
    · have hwrite : call.node.world.assetEvalcode2 e2 call.tx=
          call.node.world.assetEvalcode2 e2' call.tx := by
        obtain ⟨b,rest,hcons⟩ := List.exists_cons_of_ne_nil hdata
        simp only [World.assetEvalcode2,hr,hcons,List.headD_cons]
      rw [hwrite]
    · exact World.validateAssetFuncid_unaffected _ _ inputs hfunc
  cases hcode : call.code with
  | nil => rfl
  | cons ecode vparams =>
    have hvalidate : (call.node.validate e2 ecode).map (· call.tx)=
        (call.node.validate e2' ecode).map (· call.tx) := by
      unfold EvalNode.validate
      split_ifs
      · rfl
      · exact congrArg some hassets
      · rfl
      · rfl
      · rfl
    have hprocess : call.node.processCC e2 ecode vparams call.tx=
        call.node.processCC e2' ecode vparams call.tx := by
      unfold EvalNode.processCC
      rcases hown : call.node.validate e2 ecode with _ | v
      · rcases hother : call.node.validate e2' ecode with _ | v'
        · rfl
        · rw [hown,hother] at hvalidate
          cases hvalidate
      · rcases hother : call.node.validate e2' ecode with _ | v'
        · rw [hown,hother] at hvalidate
          cases hvalidate
        · rw [hown,hother] at hvalidate
          have hv : v call.tx=v' call.tx := Option.some.inj hvalidate
          dsimp only
          rw [hv]
    simp only [EvalNode.dispatch,hprocess]

/-- Two nodes agree on a call after any calls that were made before, when none of these
was for a non-fungible asset, or when the call does not depend on them. -/
theorem asset_verdict_independent (call : EvalCall) (history history' : List EvalCall)
    (h : call.Unaffected ∨ ((∀c∈history,¬c.NonFungible) ∧ ∀c∈history',¬c.NonFungible)) :
    call.verdict history=call.verdict history' := by
  unfold EvalCall.verdict
  obtain hcall | ⟨hquiet,hquiet'⟩ := h
  · rw [dispatch_congr hcall (recordOf history) (recordOf history')]
  · rw [recordOf_eq_zero hquiet,recordOf_eq_zero hquiet']

/-- Creation of a token whose data begin with the code 0x77. -/
def nftTx : CTransaction :=
  plainTx 40 [⟨⟨1,0⟩,[]⟩] [⟨1,[2,0x77,7,0xcc]⟩,
    ⟨0,0x6a::pushData ([0xf2,0x63,33]++World.keyOf 7++[1,0x6e,0,0x11,1,0x77])⟩]

/-- A node with the bid of key 7 for token 9, in a chain that also has the token 40. -/
def marketNode : EvalNode where
  world := World.ofKeys (indexOf [World.tokenTx,World.fiveTokensTx,World.bidTx,nftTx])
  site := Site.named "ZDX"
  importNode := World.coinNode 20 World.coinBurn
  stray := ⟨0,0,0,0,0⟩
  HUSH_CONNECTING := 1000
  HUSH_CCACTIVATE := 1
  ASSETCHAINS_CC := 100
  ASSETCHAINS_CCDISABLES := fun _ => false
  mapHeightEvalActivate := fun _ => 0
  cclibMatches := false
  cclibDispatch := fun _ _ _ => pure false
  importPayout := fun _ _ => pure false
  otherValidate := fun _ => none

def assetCall (tx : CTransaction) : EvalCall := ⟨marketNode,[EVAL_ASSETS],tx⟩

/-- A fill with token 40, which the bid is not for. -/
def nftFill : CTransaction :=
  plainTx 41 World.fillInputs [⟨0,[]⟩,⟨0,0x6a::pushData ([0xf2,0x74]++List.replicate 31 0++[40,0,0x12,44,0xe3,
    chr 'B',1]++List.replicate 7 0++[33]++World.keyOf 7)⟩]

/-- A fair fill is accepted by a fresh node and refused after a call for token 40. -/
theorem nft_call_changes_verdict :
    ((assetCall World.evenFill).verdict []).1=true ∧ ((assetCall nftFill).verdict []).1=false ∧
      ((assetCall World.evenFill).verdict [assetCall nftFill]).1=false := by
  decide +kernel

theorem fungible_call_keeps_verdict :
    ((assetCall World.evenFill).verdict [assetCall World.greedyFill]).1=true := by
  have hquiet : ¬(assetCall World.greedyFill).NonFungible := by
    rintro ⟨-,r,hr,hdata⟩
    have hfill : r=⟨chr 'B',9,0,99,World.keyOf 7⟩ :=
      Option.some.inj (hr.symm.trans (by decide +kernel))
    rw [hfill] at hdata
    exact hdata (by decide +kernel)
  rw [asset_verdict_independent (assetCall World.evenFill) [assetCall World.greedyFill] []
    (.inr ⟨by simpa using hquiet,by simp⟩)]
  decide +kernel

end Zdeex.Cc
