import Mathlib.Tactic.Linarith
import Zdeex.Cc.Assets

namespace Zdeex.Cc

open Zdeex.Framework
open Zdeex.Coins
open Zdeex.Block
open Zdeex.Crosschain

/-- Coins taken from a bid of `orig` coins for `total` tokens, up to the rounding of
a unit price: each token costs less than one coin more than the bid offers. -/
def FairBid (orig total taken tokens : Int) : Prop :=
  0<total → taken<tokens*(orig/total+1) ∧ taken*total<tokens*orig+tokens*total

/-- Tokens taken from an ask of `orig` tokens for `total` coins: each token brings
the rounded unit price at least. -/
def FairAsk (orig total taken coins : Int) : Prop :=
  0<total → taken*(total/orig) ≤ coins ∧ taken*total<coins*orig+taken*orig

/-- A bid is treated fairly when the unit price that is taken is not above its own. -/
theorem fairBid_iff {orig total taken tokens : Int} (htaken : 0≤taken) (htokens : 0≤tokens) :
    FairBid orig total taken tokens ↔ (0<total → 0<tokens ∧ taken/tokens≤orig/total) := by
  constructor
  · intro h htotal
    obtain ⟨hprice,-⟩ := h htotal
    have hpos : 0<tokens := by
      rcases htokens.lt_or_eq with hpos | hzero
      · exact hpos
      · rw [← hzero,zero_mul] at hprice
        omega
    refine ⟨hpos,Int.lt_add_one_iff.mp ?_⟩
    apply Int.ediv_lt_of_lt_mul hpos
    rwa [mul_comm] at hprice
  · intro h htotal
    obtain ⟨hpos,hle⟩ := h htotal
    have hprice : taken<tokens*(orig/total+1) := by
      have hlt : taken/tokens<orig/total+1 := Int.lt_add_one_iff.mpr hle
      have hmul := Int.lt_mul_of_ediv_lt hpos hlt
      rwa [mul_comm]
    refine ⟨hprice,?_⟩
    have hround : total*(orig/total)≤orig := Int.mul_ediv_self_le htotal.ne'
    have hleft : taken*total<tokens*(orig/total+1)*total := mul_lt_mul_of_pos_right hprice htotal
    have hright : tokens*(total*(orig/total))≤tokens*orig := mul_le_mul_of_nonneg_left hround htokens
    linarith [hleft,hright]

/-- An ask whose remainder was validated is treated fairly. -/
theorem fairAsk_of_remainder {remaining_nValue remaining_assetoshis orig total taken coins : Int}
    (horig : 0≤orig) (htaken : 0≤taken) (hcoins : 0 ≤ coins)
    (h : validateAskRemainder remaining_nValue remaining_assetoshis orig taken coins total=true) :
    FairAsk orig total taken coins := by
  intro htotal
  unfold validateAskRemainder validateRemainder at h
  rw [Bool.and_eq_true] at h
  obtain ⟨hnonzero,hprice⟩ := h
  split_ifs at hnonzero with hzero
  push Not at hzero
  obtain ⟨horig0,htaken0,-,-⟩ := hzero
  have horigPos : 0<orig := by omega
  have htakenPos : 0<taken := by omega
  have hunit : total/orig ≤ coins/taken := by
    rw [Bool.not_eq_true',decide_eq_false_iff_not,not_lt,Int.tdiv_eq_ediv_of_nonneg htotal.le,
      Int.tdiv_eq_ediv_of_nonneg hcoins] at hprice
    exact hprice
  have hfloor : taken*(coins/taken) ≤ coins := Int.mul_ediv_self_le htakenPos.ne'
  have hpaid : taken*(total/orig) ≤ coins := (mul_le_mul_of_nonneg_left hunit htaken).trans hfloor
  refine ⟨hpaid,?_⟩
  have hround : total<orig*(total/orig)+orig := Int.lt_mul_ediv_self_add horigPos
  have hleft : taken*total<taken*(orig*(total/orig)+orig) := mul_lt_mul_of_pos_left hround htakenPos
  have hright : taken*(total/orig)*orig ≤ coins*orig := mul_le_mul_of_nonneg_right hpaid horig
  linarith [hleft,hright]

/-- A bid whose remainder was validated is filled at its unit price or above. -/
theorem bidPrice_of_remainder {remaining_units remaining_nValue orig total taken tokens : Int}
    (horig : 0≤orig) (htaken : 0≤taken) (htokens : 0≤tokens)
    (h : validateBidRemainder remaining_units remaining_nValue orig taken tokens total=true) :
    0<tokens ∧ (0<total → orig/total≤taken/tokens) := by
  unfold validateBidRemainder validateRemainder at h
  rw [Bool.and_eq_true] at h
  obtain ⟨hnonzero,hprice⟩ := h
  split_ifs at hnonzero with hzero
  push Not at hzero
  obtain ⟨-,-,htokens0,-⟩ := hzero
  refine ⟨by omega,fun htotal => ?_⟩
  rw [Bool.not_eq_true',decide_eq_false_iff_not,not_lt,Int.tdiv_eq_ediv_of_nonneg horig,
    Int.tdiv_eq_ediv_of_nonneg htaken] at hprice
  exact hprice

namespace World

variable (W : World)

/-- The fifth output of a fill is under a condition: tokens go back to the filler. -/
def TokenChange (tx : CTransaction) : Prop :=
  isPayToCryptoCondition (W.voutAt tx 4).scriptPubKey=true

/-- What the order at the second input offers and asks for. -/
def orderOf (tx : CTransaction) : Option (Int × Int) :=
  match tx.vin with
  | _::vin1::_ =>
      match W.getTransaction vin1.prevout.hash with
      | none => none
      | some (vinTx,_) =>
          (decodeAssetTokenOpRet W.strayPk (lastScript vinTx)).map fun r =>
            ((W.voutAt vinTx 0).nValue,r.price)
  | _ => none

/-- The counterparty of the order gets a price that is fair to its owner. -/
def FairFill (funcid : UInt8) (tx : CTransaction) (orig total : Int) : Prop :=
  if funcid=chr 'B' then FairBid orig total (W.voutAt tx 1).nValue (W.voutAt tx 2).nValue
  else FairAsk orig total (W.voutAt tx 1).nValue (W.voutAt tx 2).nValue

variable {W} {e2 funcid : UInt8} {tx : CTransaction} {s : Option String}

theorem assetValidateCCvin_some {vin : CCvin}
    (h : (W.assetValidateCCvin e2 funcid tx s).1=some vin) :
    ∃vin0 vin1 rest b,tx.vin=vin0::vin1::rest ∧
      W.getTransaction vin1.prevout.hash=some (vin.vinTx,b) ∧
      vin.nValue=(W.voutAt vin.vinTx 0).nValue := by
  unfold assetValidateCCvin at h
  rcases hvin : tx.vin with _ | ⟨vin0,_ | ⟨vin1,rest⟩⟩
  · rw [hvin] at h
    cases h
  · rw [hvin] at h
    cases h
  · rw [hvin] at h
    dsimp only at h
    rw [failIf_some] at h
    obtain ⟨-,h⟩ := h
    cases hget : W.getTransaction vin1.prevout.hash with
    | none =>
      rw [hget] at h
      cases h
    | some p =>
      rw [hget] at h
      dsimp only at h
      rw [failIf_some] at h
      obtain ⟨-,h⟩ := h
      cases haddrs : W.getAssetorigaddrs e2 p.1 with
      | none =>
        rw [haddrs] at h
        cases h
      | some addrs =>
        rw [haddrs] at h
        dsimp only at h
        rw [failIf_some] at h
        obtain rfl := Option.some.inj h.2
        exact ⟨vin0,vin1,rest,p.2,rfl,hget,rfl⟩

/-- What the fill of a bid is checked against. -/
theorem assetValidateBuyvin_some {refassetid : Uint256} {order : Order}
    (h : (W.assetValidateBuyvin e2 funcid tx refassetid s).1=some order) :
    W.orderOf tx=some (order.nValue,order.price) := by
  unfold assetValidateBuyvin at h
  rw [whenSome_some] at h
  obtain ⟨vin,hvin,h⟩ := h
  obtain ⟨vin0,vin1,rest,b,htx,hget,hvalue⟩ := assetValidateCCvin_some hvin
  unfold buyvinOrder at h
  rw [failIf_some] at h
  obtain ⟨-,h⟩ := h
  cases hdec : decodeAssetTokenOpRet W.strayPk (lastScript vin.vinTx) with
  | none =>
    rw [hdec] at h
    cases h
  | some r =>
    rw [hdec] at h
    dsimp only at h
    rw [failIf_some,failIf_some,failIf_some] at h
    obtain rfl := Option.some.inj h.2.2.2
    simp only [orderOf,htx,hget,hdec,Option.map_some,hvalue]

/-- What the fill of an ask is checked against. -/
theorem assetValidateSellvin_some {assetid : Uint256} {order : Order}
    (h : (W.assetValidateSellvin e2 funcid tx assetid s).1=some order) :
    W.orderOf tx=some (order.nValue,order.price) := by
  unfold assetValidateSellvin at h
  rw [whenSome_some] at h
  obtain ⟨vin,hvin,h⟩ := h
  obtain ⟨vin0,vin1,rest,b,htx,hget,-⟩ := assetValidateCCvin_some hvin
  unfold sellvinOrder isAssetvout at h
  cases hout : conditionVout? vin.vinTx 0 with
  | none =>
    rw [hout] at h
    cases h
  | some out =>
    cases hdec : decodeAssetTokenOpRet W.strayPk (lastScript vin.vinTx) with
    | none =>
      rw [hout,hdec] at h
      cases h
    | some r =>
      rw [hout,hdec] at h
      dsimp only at h
      split_ifs at h with hopret
      · dsimp only at h
        rw [failIf_some] at h
        obtain rfl := Option.some.inj h.2
        have hvout : W.voutAt vin.vinTx 0=out := by
          rw [voutAt,List.getD_eq_getElem?_getD,(conditionVout?_some hout).1,Option.getD_some]
        simp only [orderOf,htx,hget,hdec,Option.map_some,hvout]
      · cases h

/-- An accepted transaction passed the checks of its function. -/
theorem assetsValidate_funcid {r : AssetOpRet} (h : (W.assetsValidate e2 tx s).1=true)
    (hr : decodeAssetTokenOpRet W.strayPk (lastScript tx)=some r) :
    ∃inputs s',(W.validateAssetFuncid e2 tx r inputs s').1=true := by
  rw [assetsValidate,refuseIf_true] at h
  obtain ⟨-,h⟩ := h
  rw [hr] at h
  dsimp only at h
  rw [refuseIf_true,refuseIf_true,refuseIf_true,refuseIf_true,refuseIf_true,whenSome_true] at h
  obtain ⟨-,-,-,-,-,inputs,-,h⟩ := h
  exact ⟨inputs,_,h⟩

/-- What an order offers is the value of an output that is there. -/
theorem orderOf_nonneg {orig total : Int}
    (hfound : ∀h t b,W.getTransaction h=some (t,b) → ∀o∈t.vout,0≤o.nValue)
    (h : W.orderOf tx=some (orig,total)) : 0≤orig := by
  unfold orderOf at h
  rcases hvin : tx.vin with _ | ⟨vin0,_ | ⟨vin1,rest⟩⟩
  · simp [hvin] at h
  · simp [hvin] at h
  · rw [hvin] at h
    dsimp only at h
    cases hget : W.getTransaction vin1.prevout.hash with
    | none => simp [hget] at h
    | some p =>
      rw [hget] at h
      obtain ⟨r,hdec,hpair⟩ := Option.map_eq_some_iff.mp h
      obtain ⟨rfl,-⟩ := Prod.mk.inj hpair
      apply voutAt_nonneg (hfound _ p.1 p.2 hget)
      apply List.length_pos_of_ne_nil
      intro hempty
      have hnone : decodeAssetTokenOpRet W.strayPk (lastScript p.1)=none := by
        rw [lastScript,hempty]
        rfl
      rw [hnone] at hdec
      cases hdec

/-- With token change the price of the order plays no part. -/
theorem fillbuy_tokenChange (hchange : W.TokenChange tx) (r : AssetOpRet) (inputs : Int)
    (order : Order) (price : Int) :
    W.fillbuy tx r inputs {order with price := price}=W.fillbuy tx r inputs order := by
  have hcc : isPayToCryptoCondition (W.voutAt tx 4).scriptPubKey=true := hchange
  unfold fillbuy
  dsimp only
  rw [if_pos hcc,if_pos hcc]

/-- Without token change a fill that is accepted is at the unit price of the bid or above. -/
theorem fillbuy_price {r : AssetOpRet} {inputs : Int} {order : Order}
    (hchange : ¬W.TokenChange tx) (htx : ∀o∈tx.vout,0≤o.nValue) (horig : 0≤order.nValue)
    (h : (W.fillbuy tx r inputs order s).1=true) :
    0<(W.voutAt tx 2).nValue ∧ (0<order.price →
      order.nValue/order.price≤(W.voutAt tx 1).nValue/(W.voutAt tx 2).nValue) := by
  have hcc : ¬isPayToCryptoCondition (W.voutAt tx 4).scriptPubKey=true := hchange
  rw [fillbuy,refuseIf_true] at h
  obtain ⟨hfew,h⟩ := h
  have hlen : 4≤tx.vout.length := not_lt.mp hfew
  rw [if_neg hcc,refuseIf_true,refuseIf_true,refuseIf_true,refuseIf_true,refuseIf_true,
    refuseIf_true] at h
  obtain ⟨-,-,-,-,-,hremainder,-⟩ := h
  rw [Bool.not_eq_false] at hremainder
  exact bidPrice_of_remainder horig (voutAt_nonneg htx (by omega)) (voutAt_nonneg htx (by omega))
    hremainder

/-- A fill of an ask is fair, and one of a bid without token change exactly when it is at the unit
price of the bid: those above it are accepted too. -/
theorem fill_price_iff (W : World) (e2 : UInt8) (tx : CTransaction) (r : AssetOpRet)
    (s : Option String) (htx : ∀o∈tx.vout,0≤o.nValue)
    (hfound : ∀h t b,W.getTransaction h=some (t,b) → ∀o∈t.vout,0≤o.nValue)
    (hr : decodeAssetTokenOpRet W.strayPk (lastScript tx)=some r)
    (hfill : r.funcid=chr 'B' ∨ r.funcid=chr 'S') (haccept : (W.assetsValidate e2 tx s).1=true) :
    ∃orig total,W.orderOf tx=some (orig,total) ∧
      (r.funcid=chr 'S' ∨ ¬W.TokenChange tx →
        (W.FairFill r.funcid tx orig total ↔ r.funcid=chr 'S' ∨
          (0<total → (W.voutAt tx 1).nValue/(W.voutAt tx 2).nValue=orig/total))) := by
  obtain ⟨inputs,s',h⟩ := assetsValidate_funcid haccept hr
  obtain hB | hS := hfill
  · rw [validateAssetFuncid,hB,if_neg (by decide),if_neg (by decide),if_pos rfl,
      whenSome_true] at h
    obtain ⟨order,horder,h⟩ := h
    have hof := assetValidateBuyvin_some horder
    have hlen : 4≤tx.vout.length := by
      rw [fillbuy,refuseIf_true] at h
      exact not_lt.mp h.1
    refine ⟨order.nValue,order.price,hof,?_⟩
    rintro (hS | hchange)
    · exact absurd (hB.symm.trans hS) (by decide)
    obtain ⟨htokens,hleast⟩ := fillbuy_price hchange htx (orderOf_nonneg hfound hof) h
    rw [FairFill,hB,if_pos rfl,fairBid_iff (voutAt_nonneg htx (by omega)) htokens.le]
    constructor
    · exact fun hfair => .inr fun htotal => le_antisymm (hfair htotal).2 (hleast htotal)
    · rintro (hS | hprice)
      · exact absurd hS (by decide)
      · exact fun htotal => ⟨htokens,(hprice htotal).le⟩
  · rw [validateAssetFuncid,hS,if_neg (by decide),if_neg (by decide),if_neg (by decide),
      if_neg (by decide),if_neg (by decide),if_pos rfl,whenSome_true] at h
    obtain ⟨order,horder,h⟩ := h
    have hof := assetValidateSellvin_some horder
    rw [fillsell,refuseIf_true,refuseIf_true,refuseIf_true,refuseIf_true] at h
    obtain ⟨hfew,-,-,hremainder,-⟩ := h
    have hlen : 4≤tx.vout.length := not_lt.mp hfew
    rw [Bool.not_eq_false] at hremainder
    refine ⟨order.nValue,order.price,hof,fun _ => ?_⟩
    rw [FairFill,hS,if_neg (by decide)]
    refine ⟨fun _ => .inl rfl,fun _ => ?_⟩
    exact fairAsk_of_remainder (orderOf_nonneg hfound hof) (voutAt_nonneg htx (by omega))
      (voutAt_nonneg htx (by omega)) hremainder

/-- Asset data of token 9 behind an op_return: function, price and owner. -/
def assetScript (funcid : Char) (price : UInt8) (pk : CPubKey) : List UInt8 :=
  0x6a::pushData ([0xf2,0x74]++List.replicate 31 0++[9,0,0x12,44,0xe3,chr funcid,price]++
    List.replicate 7 0++[33]++pk)

def tokenTx : CTransaction :=
  plainTx 9 [⟨⟨1,0⟩,[]⟩] [⟨100,[2,0xf2,7,0xcc]⟩,⟨0,createScriptBy (keyOf 7) 0x61⟩]

/-- Key 8 has five tokens. -/
def fiveTokensTx : CTransaction :=
  plainTx 4 [⟨⟨9,0⟩,[3,0xf2,7,1]⟩] [⟨5,[2,0xf2,8,0xcc]⟩,⟨0,transferScriptTo 9 (keyOf 8)⟩]

/-- Key 7 bids 1000 coins for 100 tokens. -/
def bidTx : CTransaction :=
  plainTx 20 [⟨⟨1,0⟩,[]⟩]
    [⟨1000,[2,0xe3,0xe3,0xcc]⟩,⟨10000,[2,0xe3,7,0xcc]⟩,⟨0,assetScript 'b' 100 (keyOf 7)⟩]

def bidWorld : World := ofKeys (indexOf [tokenTx,fiveTokensTx,bidTx])

/-- The inputs of a fill by key 8: coins for the fee, the bid, and the five tokens. -/
def fillInputs : List CTxIn := [⟨⟨2,0⟩,[]⟩,⟨⟨20,0⟩,[3,0xe3,0xe3,1]⟩,⟨⟨4,0⟩,[3,0xf2,8,1]⟩]

/-- Key 8 takes all coins for one token and keeps four, as token change. -/
def greedyFill : CTransaction :=
  plainTx 30 fillInputs [⟨0,[]⟩,⟨1000,33::keyOf 8++[0xac]⟩,⟨1,[2,0xf2,7,0xcc]⟩,
    ⟨10000,[2,0xe3,7,0xcc]⟩,⟨4,[2,0xf2,8,0xcc]⟩,⟨0,assetScript 'B' 99 (keyOf 7)⟩]

theorem greedy_fill_accepted :
    (bidWorld.assetsValidate 0 greedyFill none).1=true ∧
      bidWorld.orderOf greedyFill=some (1000,100) ∧
      ¬bidWorld.FairFill (chr 'B') greedyFill 1000 100 := by
  refine ⟨by decide +kernel,by decide +kernel,?_⟩
  intro hfair
  have hprice := ((if_pos rfl).mp hfair (by decide)).2
  exact absurd hprice (by decide +kernel)

/-- Key 8 takes 50 coins for five tokens. -/
def evenFill : CTransaction :=
  plainTx 31 fillInputs [⟨950,[2,0xe3,0xe3,0xcc]⟩,⟨50,33::keyOf 8++[0xac]⟩,
    ⟨5,[2,0xf2,7,0xcc]⟩,⟨10000,[2,0xe3,7,0xcc]⟩,⟨0,assetScript 'B' 95 (keyOf 7)⟩]

theorem even_fill_fair :
    (bidWorld.assetsValidate 0 evenFill none).1=true ∧
      bidWorld.FairFill (chr 'B') evenFill 1000 100 := by
  have haccept : (bidWorld.assetsValidate 0 evenFill none).1=true := by decide +kernel
  have hvouts : ∀t∈[tokenTx,fiveTokensTx,bidTx],∀o∈t.vout,0≤o.nValue := by decide
  obtain ⟨orig,total,horder,hiff⟩ := fill_price_iff bidWorld 0 evenFill
    ⟨chr 'B',9,0,95,keyOf 7⟩ none (by decide) (fun _ t _ hget => hvouts t (indexOf_some hget).1)
    (by decide +kernel) (.inl rfl) haccept
  have heven : bidWorld.orderOf evenFill=some (1000,100) := by decide +kernel
  obtain ⟨rfl,rfl⟩ := Prod.mk.inj (Option.some.inj (heven.symm.trans horder))
  refine ⟨haccept,(hiff (.inr ?_)).mpr (.inr fun _ => ?_)⟩
  · unfold TokenChange
    decide +kernel
  · decide +kernel

end World

end Zdeex.Cc
