import Mathlib.Algebra.BigOperators.Group.List.Basic
import Mathlib.Algebra.Order.BigOperators.Group.List
import Mathlib.Tactic.Linarith
import Zdeex.Cc.ImportCoin

namespace Zdeex.Cc

open Zdeex.Framework
open Zdeex.Coins
open Zdeex.Block
open Zdeex.Crosschain

/-- Nodes at heights that the same upgrades cover. -/
structure ImportNode.SameUpgrade (N N' : ImportNode) : Prop where
  codec : N'.codec=N.codec
  upgrades : N'.upgrades=N.upgrades
  overwinter : networkUpgradeActive N.upgrades.overwinter N'.nextheight=
    networkUpgradeActive N.upgrades.overwinter N.nextheight
  sapling : networkUpgradeActive N.upgrades.sapling N'.nextheight=
    networkUpgradeActive N.upgrades.sapling N.nextheight

/-- No other transaction has the id of the one that is made again. -/
def ImportNode.Identified (N : ImportNode) (tx : CTransaction) (proof : ImportProof)
    (burnTx : CTransaction) (payouts : List CTxOut) : Prop :=
  (N.makeImportCoinTransaction proof burnTx payouts tx.nExpiryHeight).hash=tx.hash →
    N.makeImportCoinTransaction proof burnTx payouts tx.nExpiryHeight=tx

namespace World

/-- What was burned: the coins in the last output, and for tokens the outputs to the
burn key. -/
def burnedValue (W : World) (importTx burnTx : CTransaction) : Int :=
  burnAmount burnTx+
    if (opretData (lastScript burnTx)).head?=some EVAL_TOKENS then
      match decodeTokenOpRet W.strayPk (lastScript importTx) with
      | none => 0
      | some r => (W.burnedTokens burnTx (nonfungibleEvalCode r)).sum
    else 0

/-- An import that the contract and the rule on values accept, with what it embeds. -/
structure AcceptedImport (W : World) (N : ImportNode) (site : Site) (tx : CTransaction)
    (proof : ImportProof) (burnTx : CTransaction) (payouts : List CTxOut) : Prop where
  notPegs : N.ASSETCHAINS_SELFIMPORT≠"PEGSCC"
  embedded : N.unmarshalImportTx tx=some (proof,burnTx,payouts)
  accepted : (W.importCoin N tx none).1=true
  values : ∃valueOut,tx.getValueOut site.MAX_MONEY=some valueOut ∧
    valueOut ≤ W.getValueInOf N site tx

variable {W : World} {N : ImportNode} {site : Site} {tx burnTx : CTransaction}
  {proof : ImportProof} {payouts : List CTxOut}

/-- What `ImportCoin` has checked when it accepts. -/
theorem importCoin_true {s : Option String} (hpegs : N.ASSETCHAINS_SELFIMPORT≠"PEGSCC")
    (hread : N.unmarshalImportTx tx=some (proof,burnTx,payouts))
    (h : (W.importCoin N tx s).1=true) :
    2 ≤ tx.vout.length ∧
      (N.makeImportCoinTransaction proof burnTx payouts tx.nExpiryHeight).hash=tx.hash ∧
      ∃burn,W.unmarshalBurnTx burnTx=some burn ∧
        burn.payoutsHash=N.codec.serializeHash payouts := by
  rw [importCoin,refuseIf_true] at h
  obtain ⟨hlen,h⟩ := h
  rw [hread] at h
  dsimp only at h
  rw [refuseIf_true] at h
  obtain ⟨hcanonical,h⟩ := h
  cases hburn : W.unmarshalBurnTx burnTx with
  | none =>
    rw [hburn] at h
    cases h
  | some burn =>
    rw [hburn] at h
    dsimp only at h
    rw [checkBurn,refuseIf_true,refuseIf_true,refuseIf_true,refuseIf_true] at h
    obtain ⟨-,-,-,hpayouts,-⟩ := h
    rw [not_not] at hpayouts
    have hid : (N.makeImportCoinTransaction proof burnTx payouts tx.nExpiryHeight).hash=tx.hash := by
      by_contra hne
      exact hcanonical ⟨hpegs,hne⟩
    exact ⟨by omega,hid,burn,rfl,hpayouts⟩

/-- With two outputs or more an import has a payout. -/
theorem payouts_ne_nil (hread : N.unmarshalImportTx tx=some (proof,burnTx,payouts))
    (hlen : 2 ≤ tx.vout.length) : payouts≠[] := by
  have hdrop : tx.vout.dropLast≠[] := by
    apply List.ne_nil_of_length_pos
    rw [List.length_dropLast]
    omega
  unfold ImportNode.unmarshalImportTx at hread
  split_ifs at hread
  cases hparts : ImportNode.importParts tx with
  | none =>
    rw [hparts] at hread
    cases hread
  | some p =>
    rw [hparts] at hread
    obtain ⟨q,-,hq⟩ := Option.map_eq_some_iff.mp hread
    obtain ⟨-,hrest⟩ := Prod.mk.inj hq
    obtain ⟨-,rfl⟩ := Prod.mk.inj hrest
    unfold ImportNode.importParts at hparts
    cases hdata : opretData (lastScript tx) with
    | nil =>
      rw [hdata] at hparts
      cases hparts
    | cons evalcode data =>
      rw [hdata] at hparts
      dsimp only at hparts
      split_ifs at hparts
      · obtain ⟨create,-,rfl⟩ := Option.map_eq_some_iff.mp hparts
        exact List.append_ne_nil_of_left_ne_nil hdrop _
      · obtain rfl := Option.some.inj hparts
        exact hdrop

theorem makeImport_vin (hne : payouts≠[]) (nExpiryHeight : Nat) :
    (N.makeImportCoinTransaction proof burnTx payouts nExpiryHeight).vin=[importVin burnTx] := by
  unfold ImportNode.makeImportCoinTransaction
  dsimp only
  rw [if_neg hne]
  rfl

/-- The transaction that is made again depends on the upgrades only. -/
theorem makeImport_congr {N' : ImportNode} (h : N.SameUpgrade N') (nExpiryHeight : Nat) :
    N'.makeImportCoinTransaction proof burnTx payouts nExpiryHeight=
      N.makeImportCoinTransaction proof burnTx payouts nExpiryHeight := by
  unfold ImportNode.makeImportCoinTransaction createNewContextual
  rw [h.codec,h.upgrades,h.overwinter,h.sapling]
  split_ifs <;> rfl

/-- The value of an import is at most that of its burn, where a burn has no negative outputs. -/
theorem getCoinImportValue_le (hread : N.unmarshalImportTx tx=some (proof,burnTx,payouts))
    (hburn : ∀o∈burnTx.vout,0 ≤ o.nValue) :
    W.getCoinImportValue N tx ≤ W.burnedValue tx burnTx := by
  have hamount : 0 ≤ burnAmount burnTx := by
    unfold burnAmount
    cases hlast : burnTx.vout.getLast? with
    | none => exact le_refl _
    | some o => exact hburn o (List.mem_of_getLast? hlast)
  unfold getCoinImportValue burnedValue
  rw [hread]
  dsimp only
  cases hdata : opretData (lastScript burnTx) with
  | nil => simpa using hamount
  | cons evalcode data =>
    dsimp only
    by_cases htoken : evalcode=EVAL_TOKENS
    · rw [if_pos htoken,if_pos (by rw [htoken]; rfl)]
      cases decodeTokenOpRet W.strayPk (lastScript tx) with
      | none => simpa using hamount
      | some r =>
        have htokens : 0≤(W.burnedTokens burnTx (nonfungibleEvalCode r)).sum := by
          apply List.sum_nonneg
          intro x hx
          obtain ⟨o,ho,rfl⟩ := List.mem_map.mp hx
          exact hburn o (List.mem_of_mem_filter ho)
        dsimp only
        rw [sumCAmount_eq,toCAmount_add_left,add_comm]
        exact toCAmount_le (by omega)
    · rw [if_neg htoken,if_neg (by simpa using htoken),add_zero]

/-- An import of a burn without negative outputs pays out what was burned, to the payouts that were committed, and under
one network upgrade a burn has one import with a proof and an expiry height. -/
theorem import_pays_out_burn (W : World) (N : ImportNode) (site : Site) (tx burnTx : CTransaction)
    (proof : ImportProof) (payouts : List CTxOut)
    (h : W.AcceptedImport N site tx proof burnTx payouts)
    (hid : N.Identified tx proof burnTx payouts) :
    ((∀o∈burnTx.vout,0 ≤ o.nValue) →
      (tx.vout.map CTxOut.nValue).sum ≤ W.burnedValue tx burnTx) ∧
    (∃burn,W.unmarshalBurnTx burnTx=some burn ∧
      N.codec.serializeHash payouts=burn.payoutsHash) ∧
    ∀(W' : World) (N' : ImportNode) (site' : Site) (tx' : CTransaction) (payouts' : List CTxOut),
      W'.AcceptedImport N' site' tx' proof burnTx payouts' → W'.strayPk=W.strayPk →
      N.SameUpgrade N' → tx'.nExpiryHeight=tx.nExpiryHeight →
      N'.Identified tx' proof burnTx payouts' →
      (N.codec.serializeHash payouts'=N.codec.serializeHash payouts → payouts'=payouts) →
      tx'=tx := by
  obtain ⟨hlen,hhash,burn,hburn,hpayouts⟩ :=
    importCoin_true h.notPegs h.embedded h.accepted
  have hmade := hid hhash
  obtain ⟨valueOut,hout,hle⟩ := h.values
  obtain ⟨-,hsum⟩ := CTransaction.sum_vout_le_valueOut hout
  refine ⟨?_,⟨burn,hburn,hpayouts.symm⟩,?_⟩
  · intro hvalues
    have hvin : tx.vin=[importVin burnTx] := by
      rw [← hmade]
      exact makeImport_vin (payouts_ne_nil h.embedded hlen) _
    have himport : tx.isCoinImport=true := by
      rw [CTransaction.isCoinImport,hvin]
      rfl
    rw [getValueInOf,if_pos himport] at hle
    exact hsum.trans (hle.trans (getCoinImportValue_le h.embedded hvalues))
  · intro W' N' site' tx' payouts' h' hstray hsame hexpiry hid' hcollision
    obtain ⟨-,hhash',burn',hburn',hpayouts'⟩ :=
      importCoin_true h'.notPegs h'.embedded h'.accepted
    have hmade' := hid' hhash'
    have hburns : burn'=burn := by
      unfold unmarshalBurnTx at hburn hburn'
      rw [hstray,hburn] at hburn'
      exact (Option.some.inj hburn').symm
    rw [hsame.codec,hburns,hpayouts] at hpayouts'
    obtain rfl := hcollision hpayouts'.symm
    rw [← hmade',makeImport_congr hsame,hexpiry,hmade]

/-- Coins that one key gets. -/
def coinPayouts : List CTxOut := [⟨995000,33::keyOf 7++[0xac]⟩]

/-- A burn of 1000000 coins for chain 100. -/
def coinBurn : CTransaction :=
  plainTx 5 [⟨⟨8,0⟩,[]⟩] [⟨1000000,0x6a::pushData ([0xe2,100,3]++[90,68,88]++
    lengthBytes 32 995000++[0])⟩]

def coinProof : ImportProof := .merkleBranch (1,⟨0,[]⟩)

/-- A burn of 5000 coins and of tokens whose amounts, not checked by the importing node, have the
64-bit sum 100. -/
def negativeBurn : CTransaction :=
  plainTx 5 [⟨⟨8,0⟩,[3,0xf2,7,1]⟩] [⟨-2^63,[2,0xf2,0xde,0xcc]⟩,⟨-2^63+100,[2,0xf2,0xde,0xcc]⟩,
    ⟨5000,0x6a::pushData ([0xf2,0x74]++List.replicate 31 0++[9,0,0x80,39]++
      ([0xe2,100,3]++[90,68,88]++lengthBytes 32 100++[0]))⟩]

/-- The import creates a hundred tokens. -/
def tokenPayouts : List CTxOut := [⟨100,[2,0xf2,7,0xcc]⟩,⟨0,createScript 0x61⟩]

/-- Hashes that tell versions and amounts apart. -/
def coinCodec (burn : CTransaction) : ImportCodec where
  getHash tx := BitVec.ofInt 256 (100*tx.nVersion+7)
  marshalImport _ burnTx := [0xe2,UInt8.ofNat burnTx.hash.toNat]
  unmarshalImport data := if data=[0xe2,5] then some (coinProof,burn) else none
  unmarshalTokenProof _ := none
  serializeHash payouts := BitVec.ofInt 256 (payouts.map CTxOut.nValue).sum

/-- Overwinter and Sapling begin at height 10. -/
def coinNode (nextheight : Int) (burn : CTransaction) : ImportNode where
  codec := coinCodec burn
  upgrades := ⟨false,10,10,200⟩
  nextheight := nextheight
  ASSETCHAINS_SELFIMPORT := ""
  ASSETCHAINS_CC := 100
  symbol := "ZDX"
  chain := burnedChain
  gateways := ⟨0,0,fun _ _ _ _ => false,fun _ _ _ => false,fun _ _ _ _ => false,
    fun _ _ _ _ => false⟩

def coinImport (nextheight : Int) (burn : CTransaction) (payouts : List CTxOut) : CTransaction :=
  (coinNode nextheight burn).makeImportCoinTransaction coinProof burn payouts 0

def emptyWorld : World := ofKeys fun _ => none

theorem coinImport_accepted {nextheight : Int} {burn : CTransaction} {payouts : List CTxOut}
    (valueOut : Int)
    (hread : (coinNode nextheight burn).unmarshalImportTx (coinImport nextheight burn payouts)=
      some (coinProof,burn,payouts))
    (haccept : (emptyWorld.importCoin (coinNode nextheight burn)
      (coinImport nextheight burn payouts) none).1=true)
    (hvalues : (coinImport nextheight burn payouts).getValueOut 2100000000000000=some valueOut ∧
      valueOut ≤ emptyWorld.getValueInOf (coinNode nextheight burn) (Site.named "ZDX")
        (coinImport nextheight burn payouts)) :
    emptyWorld.AcceptedImport (coinNode nextheight burn) (Site.named "ZDX")
      (coinImport nextheight burn payouts) coinProof burn payouts := by
  refine ⟨?_,hread,haccept,valueOut,hvalues⟩
  have hempty : ""≠"PEGSCC" := by decide
  exact hempty

theorem coinImport_identified (nextheight : Int)
    (hexpiry : (coinImport nextheight coinBurn coinPayouts).nExpiryHeight=0) :
    (coinNode nextheight coinBurn).Identified (coinImport nextheight coinBurn coinPayouts) coinProof
      coinBurn coinPayouts := by
  intro _
  rw [hexpiry]
  rfl

/-- One burn is imported in the version before Sapling and in that after it, and a burn of
negative amounts pays out more than it burned. -/
theorem imports_differ_across_upgrade :
    (emptyWorld.AcceptedImport (coinNode 5 coinBurn) (Site.named "ZDX")
        (coinImport 5 coinBurn coinPayouts) coinProof coinBurn coinPayouts ∧
      emptyWorld.AcceptedImport (coinNode 20 coinBurn) (Site.named "ZDX")
        (coinImport 20 coinBurn coinPayouts) coinProof coinBurn coinPayouts ∧
      (coinImport 5 coinBurn coinPayouts).nExpiryHeight=
        (coinImport 20 coinBurn coinPayouts).nExpiryHeight ∧
      (coinImport 5 coinBurn coinPayouts).hash≠(coinImport 20 coinBurn coinPayouts).hash) ∧
    emptyWorld.AcceptedImport (coinNode 20 negativeBurn) (Site.named "ZDX")
      (coinImport 20 negativeBurn tokenPayouts) coinProof negativeBurn tokenPayouts ∧
    emptyWorld.burnedValue (coinImport 20 negativeBurn tokenPayouts) negativeBurn<
      ((coinImport 20 negativeBurn tokenPayouts).vout.map CTxOut.nValue).sum := by
  refine ⟨⟨coinImport_accepted 995000 ?_ ?_ ?_,coinImport_accepted 995000 ?_ ?_ ?_,?_,?_⟩,
    coinImport_accepted 100 ?_ ?_ ?_,?_⟩
  all_goals decide +kernel

theorem coin_import_pays_burn :
    ((coinImport 20 coinBurn coinPayouts).vout.map CTxOut.nValue).sum ≤
        emptyWorld.burnedValue (coinImport 20 coinBurn coinPayouts) coinBurn ∧
      coinImport 21 coinBurn coinPayouts=coinImport 20 coinBurn coinPayouts := by
  have h : ∀n∈[20,21],emptyWorld.AcceptedImport (coinNode n coinBurn) (Site.named "ZDX")
      (coinImport n coinBurn coinPayouts) coinProof coinBurn coinPayouts := by
    simp only [List.forall_mem_cons]
    refine ⟨coinImport_accepted 995000 ?_ ?_ ?_,
      coinImport_accepted 995000 ?_ ?_ ?_,by simp⟩
    all_goals decide +kernel
  obtain ⟨hsum,-,hunique⟩ := import_pays_out_burn emptyWorld (coinNode 20 coinBurn)
    (Site.named "ZDX") (coinImport 20 coinBurn coinPayouts) coinBurn coinProof coinPayouts
    (h 20 (by decide)) (coinImport_identified 20 (by decide +kernel))
  exact ⟨hsum (by decide),hunique emptyWorld (coinNode 21 coinBurn) (Site.named "ZDX")
    (coinImport 21 coinBurn coinPayouts) coinPayouts (h 21 (by decide)) rfl ⟨rfl,rfl,rfl,rfl⟩
    (by decide +kernel) (coinImport_identified 21 (by decide +kernel)) (fun _ => rfl)⟩

end World

end Zdeex.Cc
