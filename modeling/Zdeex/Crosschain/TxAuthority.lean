import Mathlib.Data.List.GetD
import Mathlib.Logic.Function.Basic
import Zdeex.Crosschain.NotariesApproval
import Zdeex.Framework.Matching

namespace Zdeex.Crosschain

open Zdeex.Framework
open Zdeex.Coins
open Zdeex.Block
open Zdeex.Script

section Definitions

def OP_CHECKSIG : UInt8 := 0xac

/-- The keys of the notaries, the first `size` of which are in use. -/
structure CrosschainAuthority where
  notaries : Vector Pubkey33 64
  size : Int
  requiredSigs : Int
  size_le : size≤64

def CrosschainAuthority.notary (auth : CrosschainAuthority) (i : Nat) : Pubkey33 :=
  auth.notaries.toList.getD i []

/-- The key that a 35-byte script pays to. -/
def notaryPubkey (spk : List UInt8) : Option Pubkey33 :=
  if spk.length≠35 then none
  else if spk.getD 0 0≠33 then none
  else if spk.getD 34 0≠OP_CHECKSIG then none
  else some ((spk.drop 1).take 33)

/-- The first notary with the key that no other input has claimed. -/
def claimNotary (auth : CrosschainAuthority) (seen : Nat → Bool) (pk : Pubkey33) : Option Nat :=
  (List.range auth.size.toNat).find? fun i => !seen i && auth.notary i==pk

namespace Chain

variable (E : Chain)

/-- The key behind an input, if it has one; no result where an output beyond the end of the
spent transaction is read. -/
def inputPubkey (txIn : CTxIn) : Option (Option Pubkey33) :=
  match E.getTxUnconfirmed txIn.prevout.hash with
  | none => some none
  | some (tx,_) =>
      if tx.vout.length<txIn.prevout.n then some none
      else (tx.vout[txIn.prevout.n]?).map fun out => notaryPubkey out.scriptPubKey

/-- The loop over the inputs, with the notaries that are claimed. -/
def authorityLoop (auth : CrosschainAuthority) : List CTxIn → (Nat → Bool) → Option Bool
  | [],_ => some true
  | txIn::vin,seen =>
      match E.inputPubkey txIn with
      | none => none
      | some none => some false
      | some (some pk) =>
          match claimNotary auth seen pk with
          | none => some false
          | some i => authorityLoop auth vin (Function.update seen i true)

/-- `CheckTxAuthority`; as a `size_t`, a negative `requiredSigs` is above every number of
inputs. -/
def checkTxAuthority (tx : CTransaction) (auth : CrosschainAuthority) : Option Bool :=
  if auth.requiredSigs<0 ∨ (tx.vin.length : Int)<auth.requiredSigs then some false
  else E.authorityLoop auth tx.vin fun _ => false

/-- `GetNotaries`, with a size of -1 outside the seasons. -/
def notaryAuthority (height timestamp : Int) : CrosschainAuthority :=
  match E.seasons.hushNotaries height timestamp with
  | none => ⟨Vector.replicate 64 [],-1,11,by decide⟩
  | some notaries => ⟨notaries,64,11,by decide⟩

def checkNotaryInputs (tx : CTransaction) (height timestamp : Int) : Option Bool :=
  if tx.vin.length<11 then some false
  else E.checkTxAuthority tx (E.notaryAuthority height timestamp)

/-- The input spends an existing output that pays to the public key. -/
def SpendsKey (txIn : CTxIn) (pk : Pubkey33) : Prop :=
  ∃tx hashBlock out,E.getTxUnconfirmed txIn.prevout.hash=some (tx,hashBlock) ∧
    tx.vout[txIn.prevout.n]?=some out ∧
      pk.length=33 ∧ out.scriptPubKey=33::(pk++[OP_CHECKSIG])

/-- The inputs are matched with different notaries of the set. -/
def SignedBy (auth : CrosschainAuthority) (vin : List CTxIn) : Prop :=
  Matched (fun txIn i => E.SpendsKey txIn (auth.notary i)) (fun i : Nat => (i : Int)<auth.size) vin

/-- Enough inputs, and every one of a notary. -/
def Authorised (tx : CTransaction) (auth : CrosschainAuthority) : Prop :=
  auth.requiredSigs≤tx.vin.length ∧ E.SignedBy auth tx.vin

/-- The input refers to the position behind the last output of a transaction. -/
def BehindLast (txIn : CTxIn) : Prop :=
  ∃tx hashBlock,E.getTxUnconfirmed txIn.prevout.hash=some (tx,hashBlock) ∧
    txIn.prevout.n=tx.vout.length

/-- No output outside a spent transaction is read, and the answer is right. -/
def AuthorityExact (tx : CTransaction) (auth : CrosschainAuthority) : Prop :=
  ∃answer,E.checkTxAuthority tx auth=some answer ∧ (answer=true ↔ E.Authorised tx auth)

end Chain

end Definitions

section Inputs

variable {E : Chain} {auth : CrosschainAuthority} {seen : Nat → Bool} {txIn : CTxIn}
  {pk : Pubkey33}

theorem notaryPubkey_eq_some {spk : List UInt8} :
    notaryPubkey spk=some pk ↔ pk.length=33 ∧ spk=33::(pk++[OP_CHECKSIG]) := by
  constructor
  · intro h
    unfold notaryPubkey at h
    split_ifs at h with hlen hfirst hlast
    have hlen : spk.length=35 := not_not.mp hlen
    obtain ⟨a,rest,rfl⟩ : ∃a rest,spk=a::rest := List.exists_cons_of_length_pos (by omega)
    have hrest : rest.length=34 := by simpa using hlen
    obtain rfl : a=33 := not_not.mp hfirst
    have hbyte : rest.getD 33 0=OP_CHECKSIG := not_not.mp hlast
    have hpk : rest.take 33=pk := Option.some.inj h
    have hsplit : rest.take 33++rest.drop 33=rest := List.take_append_drop 33 rest
    have htail : rest.drop 33=[OP_CHECKSIG] := by
      rw [List.drop_eq_getElem_cons (by omega : 33 < rest.length),List.drop_of_length_le (by omega),
        ← hbyte,List.getD_eq_getElem _ _ (by omega : 33 < rest.length)]
    rw [hpk,htail] at hsplit
    refine ⟨?_,by rw [hsplit]⟩
    rw [← hpk,List.length_take,hrest]
    rfl
  · rintro ⟨hlen,rfl⟩
    have hlast : (33::(pk++[OP_CHECKSIG])).getD 34 0=OP_CHECKSIG := by
      rw [List.getD_cons_succ,List.getD_append_right _ _ _ _ (by omega),hlen]
      rfl
    have htake : ((33::(pk++[OP_CHECKSIG])).drop 1).take 33=pk := List.take_left' hlen
    rw [notaryPubkey,if_neg (by simp [hlen]),if_neg (by simp),if_neg (not_not.mpr hlast),htake]

theorem inputPubkey_eq_key : E.inputPubkey txIn=some (some pk) ↔ E.SpendsKey txIn pk := by
  unfold Chain.inputPubkey Chain.SpendsKey
  rcases hfound : E.getTxUnconfirmed txIn.prevout.hash with _ | ⟨tx,hashBlock⟩
  · simp
  · dsimp only
    constructor
    · intro h
      split_ifs at h with hbeyond
      · cases h
      · obtain ⟨out,hout,hkey⟩ := Option.map_eq_some_iff.mp h
        exact ⟨tx,hashBlock,out,rfl,hout,notaryPubkey_eq_some.mp hkey⟩
    · rintro ⟨tx',hashBlock',out,heq,hout,hkey⟩
      obtain ⟨rfl,rfl⟩ := Prod.mk.inj (Option.some.inj heq)
      obtain ⟨hlt,-⟩ := List.getElem?_eq_some_iff.mp hout
      rw [if_neg (by omega),hout,Option.map_some,notaryPubkey_eq_some.mpr hkey]

theorem inputPubkey_eq_none : E.inputPubkey txIn=none ↔ E.BehindLast txIn := by
  unfold Chain.inputPubkey Chain.BehindLast
  rcases hfound : E.getTxUnconfirmed txIn.prevout.hash with _ | ⟨tx,hashBlock⟩
  · simp
  · dsimp only
    constructor
    · intro h
      split_ifs at h with hbeyond
      have hend := List.getElem?_eq_none_iff.mp (Option.map_eq_none_iff.mp h)
      exact ⟨tx,hashBlock,rfl,by omega⟩
    · rintro ⟨tx',hashBlock',heq,hn⟩
      obtain ⟨rfl,rfl⟩ := Prod.mk.inj (Option.some.inj heq)
      rw [if_neg (by omega),List.getElem?_eq_none (by omega)]
      rfl

/-- The notaries that are still free. -/
def Free (auth : CrosschainAuthority) (seen : Nat → Bool) (i : Nat) : Prop :=
  (i : Int)<auth.size ∧ seen i=false

theorem claimNotary_some {i : Nat} (h : claimNotary auth seen pk=some i) :
    Free auth seen i ∧ auth.notary i=pk := by
  have hrange := List.mem_range.mp (List.mem_of_find?_eq_some h)
  have hfits := List.find?_some h
  simp only [Bool.and_eq_true,Bool.not_eq_true',beq_iff_eq] at hfits
  exact ⟨⟨by omega,hfits.1⟩,hfits.2⟩

theorem claimNotary_none (h : claimNotary auth seen pk=none) {i : Nat} (hi : Free auth seen i) :
    auth.notary i≠pk := by
  have hnot := List.find?_eq_none.mp h i (List.mem_range.mpr (by have := hi.1; omega))
  simpa [hi.2] using hnot

theorem free_update (i j : Nat) :
    Free auth (Function.update seen i true) j ↔ Free auth seen j ∧ j≠i := by
  unfold Free
  rcases eq_or_ne j i with rfl | hne
  · simp
  · simp [hne]

theorem spendsKey_unique {pk' : Pubkey33} (h : E.SpendsKey txIn pk) (h' : E.SpendsKey txIn pk') :
    pk=pk' := by
  rw [← inputPubkey_eq_key] at h h'
  rw [h] at h'
  exact Option.some.inj (Option.some.inj h')

end Inputs

section Loop

variable {E : Chain} {auth : CrosschainAuthority} {seen : Nat → Bool}

/-- The inputs are matched with different notaries that are still free. -/
def Chain.SignedFrom (E : Chain) (auth : CrosschainAuthority) (seen : Nat → Bool)
    (vin : List CTxIn) : Prop :=
  Matched (fun txIn i => E.SpendsKey txIn (auth.notary i)) (Free auth seen) vin

/-- What is left to match once the first input has claimed a notary. -/
theorem signedFrom_cons {txIn : CTxIn} {vin : List CTxIn} {pk : Pubkey33} {i : Nat}
    (hkey : E.inputPubkey txIn=some (some pk)) (hclaim : claimNotary auth seen pk=some i) :
    E.SignedFrom auth seen (txIn::vin) ↔ E.SignedFrom auth (Function.update seen i true) vin := by
  obtain ⟨hfree,hi⟩ := claimNotary_some hclaim
  have hfits : E.SpendsKey txIn (auth.notary i) := by
    rw [hi]
    exact inputPubkey_eq_key.mp hkey
  have hsame : ∀j,E.SpendsKey txIn (auth.notary j) →
      ∀y,E.SpendsKey y (auth.notary j) ↔ E.SpendsKey y (auth.notary i) := by
    intro j hj y
    rw [spendsKey_unique hj hfits]
  have hcons : E.SignedFrom auth seen (txIn::vin) ↔
      Matched (fun txIn i => E.SpendsKey txIn (auth.notary i))
        (fun j => Free auth seen j ∧ j≠i) vin := Matched.cons_iff hfree hfits hsame
  have hset : (fun j => Free auth seen j ∧ j≠i)=Free auth (Function.update seen i true) :=
    funext fun j => propext (free_update i j).symm
  rw [hset] at hcons
  exact hcons

theorem not_signedFrom_cons {txIn : CTxIn} {vin : List CTxIn}
    (h : ∀i,Free auth seen i → ¬E.SpendsKey txIn (auth.notary i)) :
    ¬E.SignedFrom auth seen (txIn::vin) := by
  intro hsigned
  obtain ⟨i,hfree,hfits⟩ := hsigned.exists_slot
  exact h i hfree hfits

/-- An input behind inputs of different notaries that refers behind the last output. -/
def Chain.ReadsOutside (E : Chain) (auth : CrosschainAuthority) (seen : Nat → Bool)
    (vin : List CTxIn) : Prop :=
  ∃before txIn rest,vin=before++txIn::rest ∧ E.SignedFrom auth seen before ∧ E.BehindLast txIn

theorem readsOutside_cons_iff {txIn : CTxIn} {vin : List CTxIn} (h : ¬E.BehindLast txIn) :
    E.ReadsOutside auth seen (txIn::vin) ↔ ∃before last rest,vin=before++last::rest ∧
      E.SignedFrom auth seen (txIn::before) ∧ E.BehindLast last := by
  constructor
  · rintro ⟨before,last,rest,heq,hsigned,hlast⟩
    cases before with
    | nil =>
      obtain ⟨rfl,-⟩ := List.cons.inj heq
      exact absurd hlast h
    | cons first before =>
      obtain ⟨rfl,rfl⟩ := List.cons.inj heq
      exact ⟨before,last,rest,rfl,hsigned,hlast⟩
  · rintro ⟨before,last,rest,rfl,hsigned,hlast⟩
    exact ⟨txIn::before,last,rest,rfl,hsigned,hlast⟩

/-- The loop accepts exactly the inputs of different notaries, unless it reads outside a
transaction. -/
theorem authorityLoop_spec (E : Chain) (auth : CrosschainAuthority) (vin : List CTxIn) (seen : Nat → Bool) :
    (E.ReadsOutside auth seen vin ∧ E.authorityLoop auth vin seen=none) ∨
    (¬E.ReadsOutside auth seen vin ∧
      ∃answer,E.authorityLoop auth vin seen=some answer ∧
        (answer=true ↔ E.SignedFrom auth seen vin)) := by
  induction vin generalizing seen with
  | nil =>
    refine .inr ⟨?_,true,rfl,iff_of_true rfl Matched.nil⟩
    rintro ⟨before,txIn,rest,heq,-⟩
    simp at heq
  | cons txIn vin ih =>
    have hrefused : ¬E.BehindLast txIn →
        (∀i,Free auth seen i → ¬E.SpendsKey txIn (auth.notary i)) →
        ¬E.ReadsOutside auth seen (txIn::vin) ∧
          (false=true ↔ E.SignedFrom auth seen (txIn::vin)) := by
      intro hinside hnone
      refine ⟨?_,iff_of_false (by decide) (not_signedFrom_cons hnone)⟩
      rw [readsOutside_cons_iff hinside]
      rintro ⟨before,last,rest,-,hsigned,-⟩
      exact not_signedFrom_cons hnone hsigned
    rw [Chain.authorityLoop]
    rcases hinput : E.inputPubkey txIn with _ | _ | pk
    · exact .inl ⟨⟨[],txIn,vin,rfl,Matched.nil,inputPubkey_eq_none.mp hinput⟩,rfl⟩
    · have hinside : ¬E.BehindLast txIn := by
        rw [← inputPubkey_eq_none,hinput]
        simp
      obtain ⟨hreads,hanswer⟩ := hrefused hinside fun i _ hspends => by
        rw [← inputPubkey_eq_key,hinput] at hspends
        cases hspends
      exact .inr ⟨hreads,false,rfl,hanswer⟩
    · have hinside : ¬E.BehindLast txIn := by
        rw [← inputPubkey_eq_none,hinput]
        simp
      dsimp only
      rcases hclaim : claimNotary auth seen pk with _ | i
      · obtain ⟨hreads,hanswer⟩ := hrefused hinside fun i hfree hspends =>
          claimNotary_none hclaim hfree
            (spendsKey_unique hspends (inputPubkey_eq_key.mp hinput))
        exact .inr ⟨hreads,false,rfl,hanswer⟩
      · have houtside : E.ReadsOutside auth seen (txIn::vin) ↔
            E.ReadsOutside auth (Function.update seen i true) vin := by
          rw [readsOutside_cons_iff hinside]
          simp only [signedFrom_cons hinput hclaim]
          rfl
        rw [houtside,signedFrom_cons hinput hclaim]
        exact ih (Function.update seen i true)

end Loop

section Authority

variable {E : Chain} {auth : CrosschainAuthority}

theorem free_nothing_seen : Free auth (fun _ => false)=fun i : Nat => (i : Int)<auth.size :=
  funext fun _ => propext (and_iff_left rfl)

theorem signedFrom_start (vin : List CTxIn) :
    E.SignedFrom auth (fun _ => false) vin ↔ E.SignedBy auth vin := by
  rw [Chain.SignedFrom,Chain.SignedBy,free_nothing_seen]

/-- An input behind inputs of different notaries that refers behind the last output. -/
def Chain.BoundaryInput (E : Chain) (tx : CTransaction) (auth : CrosschainAuthority) : Prop :=
  ∃before txIn rest,tx.vin=before++txIn::rest ∧ E.SignedBy auth before ∧ E.BehindLast txIn

/-- The answer is right, and nothing outside a spent transaction is read, exactly when no
input behind inputs of different notaries refers to the position behind the last output of
its transaction; with a negative `requiredSigs` the answer is always no. -/
theorem authorityExact_iff (E : Chain) (tx : CTransaction) (auth : CrosschainAuthority) :
    E.AuthorityExact tx auth ↔
      (0≤auth.requiredSigs → auth.requiredSigs≤tx.vin.length → ¬E.BoundaryInput tx auth) ∧
        (auth.requiredSigs<0 → ¬E.SignedBy auth tx.vin) := by
  have hboundary : E.ReadsOutside auth (fun _ => false) tx.vin ↔ E.BoundaryInput tx auth := by
    unfold Chain.ReadsOutside Chain.BoundaryInput
    simp only [signedFrom_start]
  unfold Chain.AuthorityExact Chain.checkTxAuthority Chain.Authorised
  by_cases hnegative : auth.requiredSigs<0
  · rw [if_pos (.inl hnegative)]
    constructor
    · rintro ⟨answer,heq,hanswer⟩
      obtain rfl := Option.some.inj heq
      exact ⟨fun hpos => absurd hnegative (not_lt.mpr hpos),
        fun _ hsigned => Bool.false_ne_true (hanswer.mpr ⟨by omega,hsigned⟩)⟩
    · rintro ⟨-,hunsigned⟩
      exact ⟨false,rfl,iff_of_false (by decide) fun hyes => hunsigned hnegative hyes.2⟩
  · by_cases hfew : (tx.vin.length : Int)<auth.requiredSigs
    · rw [if_pos (.inr hfew)]
      refine iff_of_true ⟨false,rfl,iff_of_false (by decide) ?_⟩ ⟨?_,?_⟩
      · rintro ⟨henough,-⟩
        omega
      · intro _ henough
        omega
      · exact fun hneg => absurd hneg hnegative
    · rw [if_neg (by omega)]
      have hspec := authorityLoop_spec E auth tx.vin fun _ => false
      rw [hboundary,signedFrom_start] at hspec
      constructor
      · rintro ⟨answer,heq,-⟩
        refine ⟨fun _ _ hreads => ?_,fun hneg => absurd hneg hnegative⟩
        rcases hspec with ⟨-,hnone⟩ | ⟨hinside,-⟩
        · rw [hnone] at heq
          cases heq
        · exact hinside hreads
      · rintro ⟨hinside,-⟩
        rcases hspec with ⟨hreads,-⟩ | ⟨-,answer,heq,hanswer⟩
        · exact absurd hreads (hinside (by omega) (by omega))
        · refine ⟨answer,heq,hanswer.trans ⟨fun hsigned => ⟨by omega,hsigned⟩,fun hyes => hyes.2⟩⟩

/-- A notarization counts only with eleven inputs of different notaries of the season. -/
theorem checkNotaryInputs_signed {tx : CTransaction} {height timestamp : Int}
    (h : E.checkNotaryInputs tx height timestamp=some true) :
    11≤tx.vin.length ∧ E.SignedBy (E.notaryAuthority height timestamp) tx.vin := by
  unfold Chain.checkNotaryInputs Chain.checkTxAuthority at h
  split_ifs at h with hfew hrequired
  · cases h
  · cases h
  · refine ⟨by omega,?_⟩
    rcases authorityLoop_spec E (E.notaryAuthority height timestamp) tx.vin
      (fun _ => false) with ⟨-,hnone⟩ | ⟨-,answer,heq,hanswer⟩
    · rw [hnone] at h
      cases h
    · rw [h] at heq
      obtain rfl := Option.some.inj heq
      exact (signedFrom_start _).mp (hanswer.mp rfl)

/-- A transaction with one output. -/
def singleOutput : CTransaction where
  hash := 7
  fOverwintered := false
  nVersion := 1
  nVersionGroupId := 0
  vin := []
  vout := [⟨1,[0x51]⟩]
  nExpiryHeight := 0
  valueBalance := 0
  vShieldedSpend := []
  vShieldedOutput := []
  vjoinsplit := []

/-- Eleven inputs that refer behind that output. -/
def behindLastTx : CTransaction :=
  {singleOutput with hash := 8,vin := List.replicate 11 ⟨⟨7,1⟩,[]⟩}

def singleChain : Chain where
  getTxUnconfirmed hash := if hash=7 then some (singleOutput,9) else none
  getBlock _ := none
  getscriptaddress _ := none
  pubkey2addr _ := []
  seasons := {
    smartChain := true
    ishush3 := false
    istush := false
    nHushHardforkHeight3 := 0
    HUSH_SEASON_HEIGHTS := []
    HUSH_SEASON_TIMESTAMPS := []
    heightstamp := id
    pubkeys := fun _ => Vector.replicate 64 (List.replicate 33 2) }
  hash a _ := a
  maxBlockSize := 0

def elevenSignatures : CrosschainAuthority where
  notaries := Vector.replicate 64 (List.replicate 33 2)
  size := 64
  requiredSigs := 11
  size_le := by decide

theorem behindLast_read : ¬singleChain.AuthorityExact behindLastTx elevenSignatures := by
  rintro ⟨answer,heq,-⟩
  have hnone : singleChain.checkTxAuthority behindLastTx elevenSignatures=none := by
    decide +kernel
  rw [hnone] at heq
  cases heq

end Authority

end Zdeex.Crosschain
