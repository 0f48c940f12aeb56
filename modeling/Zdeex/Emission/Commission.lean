import Mathlib.Tactic.IntervalCases
import Zdeex.Emission.HushEmission
import Zdeex.Kv.HushKv
import Zdeex.Notary.MinedPay

namespace Zdeex.Emission

open Zdeex.Framework Zdeex.Wire Zdeex.Notary

section Hex

/-- A digit of `HexStr`. -/
def hexmap (n : Nat) : Byte := BitVec.ofNat 8 (if n<10 then 0x30+n else 0x57+n)

def hexStr : List Byte → List Byte
  | [] => []
  | b::bytes => hexmap (b.toNat/16)::hexmap (b.toNat%16)::hexStr bytes

/-- A string of hex digits of even length. -/
structure IsHex (str : List Byte) : Prop where
  even : str.length%2=0
  digits : ∀ch∈str,(Kv.unhex ch).isSome

theorem unhex_hexmap {n : Nat} (h : n<16) : Kv.unhex (hexmap n)=some n := by
  interval_cases n <;> rfl

theorem length_hexStr (bytes : List Byte) : (hexStr bytes).length=2*bytes.length := by
  induction bytes with
  | nil => rfl
  | cons b bytes ih =>
    rw [hexStr,List.length_cons,List.length_cons,List.length_cons,ih]
    omega

theorem decodeHex_hexStr (bytes : List Byte) : Kv.decodeHex (hexStr bytes)=bytes := by
  induction bytes with
  | nil => rfl
  | cons b bytes ih =>
    have hb := b.isLt
    have hvalue : 16*(b.toNat/16)+b.toNat%16=b.toNat := by omega
    rw [hexStr,Kv.decodeHex,unhex_hexmap (by omega),unhex_hexmap (by omega),ih]
    simp only [Option.getD_some,hvalue,BitVec.ofNat_toNat,BitVec.setWidth_eq]

theorem isHex_hexStr (bytes : List Byte) : IsHex (hexStr bytes) := by
  refine ⟨by rw [length_hexStr]; omega,?_⟩
  induction bytes with
  | nil => exact fun ch h => absurd h List.not_mem_nil
  | cons b bytes ih =>
    have hb := b.isLt
    intro ch hch
    rw [hexStr,List.mem_cons,List.mem_cons] at hch
    rcases hch with rfl | rfl | hch
    · rw [unhex_hexmap (by omega)]
      rfl
    · rw [unhex_hexmap (by omega)]
      rfl
    · exact ih ch hch

theorem length_decodeHex (str : List Byte) : (Kv.decodeHex str).length=str.length/2 := by
  fun_induction Kv.decodeHex str with
  | case1 hi lo str ih =>
    rw [List.length_cons,ih,List.length_cons,List.length_cons]
    omega
  | case2 str hshort =>
    cases str with
    | nil => rfl
    | cons hi str =>
      cases str with
      | nil => simp
      | cons lo str => exact absurd rfl (hshort hi lo str)

end Hex

section Configuration

def nHushHardforkHeight4 : Nat := 1605555

/-- The hashes of the addresses of `DEVTAX_DATA`. -/
def devtaxHashes : List (BitVec 160) :=
  [0x0bcca88d9224ec1571d4dd68009305d055ca3a45,0x1187d31f4b95c3210d2c69acb6853034fb748f8d,
    0x25f1a8f5c0bcb7fb4c351f98fd664bbbc029c654,0x269a4514eaa07aa928d3d809d6f9b5a8b0a0d845,
    0x3a24eb5ff34c8395c4159aa74113680960fbae08,0x372334851e666ff7932d423b1d614db0ad88f3e9,
    0x3c15f6d372a486e0d3da907e0063d990d50a1f95,0x398dc193009312742129f00bc12214c2e0ec2cba,
    0x42127c49a163f79898c69906147ca3c7c34924b7,0x427297ae0417d18b7f9c31b4a51502d4f2a8cd79,
    0x5dfe2cfe9f6db1c0e6847a35f433d1948d4086a4,0x6213f7d7567a97d4b6888d3863ed8d4808acf9c6,
    0x71d646502b388d9cca69f05bdedc8920918eca4a,0x7699d74f361b559ef4cdab6ad2582f68fdd444bd,
    0x77e8bd3dc10277540fa7f183936c977c130c397c,0xae2164e50fd814faa8629907679af2668f8fd083,
    0xcf6e56a04785c9a913d355a2d9c7c7ec1243a4ff,0xd24b763bdac5fb28513d134743e42302736c0dfd,
    0xdafd59fd09a4e7cb813fc4dde4515a605e3aceae,0xdc4a3eb079349b4bb25864af4ddc5cd52faf382d]

/-- The string of `DEVTAX_DATA` for a height. -/
def devtaxScript (nHeight : Nat) : List Byte :=
  hexStr ([0x76,0xa9,0x14]++(toBytes (devtaxHashes.getD (nHeight%20) 0)).reverse++[0x88,0xac])

/-- The arguments of an unstaked chain as `hush_args` accepts them: payments to notaries
exclude a founders key and a script, and without these there is no commission. -/
structure CommissionArgs extends PayChain where
  istush3 : Bool
  FOUNDERS : BitVec 32
  FOUNDERS_REWARD : BitVec 64
  COMMISSION : BitVec 64
  OVERRIDE_PUBKEY33 : List Byte
  OVERRIDE_PUBKEYHASH : List Byte
  SCRIPTPUB : List Byte
  EARLYTXID : Uint256
  TIMELOCKGTE : BitVec 64
  unstaked : eras.STAKED=false
  pubkey33_length : OVERRIDE_PUBKEY33.length=33
  script_hex : IsHex SCRIPTPUB
  accepted : (OVERRIDE_PUBKEY33.getD 0 0≠0 ∨ SCRIPTPUB.length>1) ∧ ASSETCHAINS_NOTARY_PAY 0=0 ∨
    COMMISSION=0 ∧ FOUNDERS=0

/-- What a call of `hush_appendACscriptpub` finds: the memory around the string, and the
data of the OP_RETURN of `HUSH_EARLYTXID` if that transaction is known and early. -/
structure Surroundings where
  beyond : Nat → Byte
  stray : Bool
  opret : Option (List Byte)

/-- The global script and the static variables of the functions. -/
structure Process where
  SCRIPTPUB : List Byte
  appendInit : Bool
  minerInit : Bool
  checkInit : Bool
  cache : SubsidyCache

def charAt (env : Surroundings) (str : List Byte) (i : Nat) : Byte :=
  if i<str.length then str.getD i 0 else if i=str.length then 0 else env.beyond i

/-- The test of two characters, which stand where the code of the last one says. -/
def Surroundings.marked (env : Surroundings) (str : List Byte) : Bool :=
  match str.getLast? with
  | none => env.stray
  | some back => charAt env str back.toNat==49 && charAt env str (back.toNat-1)==51

def appended (str data : List Byte) : List Byte := str.dropLast.dropLast++hexStr data

def Process.hushAppendACscriptpub (p : Process) (env : Surroundings) : Bool × Process :=
  if p.appendInit then (true,p)
  else if env.marked p.SCRIPTPUB then
    match env.opret with
    | some data => (true,{p with SCRIPTPUB := appended p.SCRIPTPUB data, appendInit := true})
    | none => (false,p)
  else (false,p)

variable (a : CommissionArgs)

def CommissionArgs.init : Process := ⟨a.SCRIPTPUB,false,false,false,.init⟩

/-- The script of this height is one of `DEVTAX_DATA`. -/
def CommissionArgs.UsesTable (nHeight : Nat) : Prop :=
  (if a.eras.ishush3 then nHushHardforkHeight4 else 5)≤nHeight ∧
    (a.eras.ishush3=true ∨ a.istush3=true)

instance (nHeight : Nat) : Decidable (a.UsesTable nHeight) :=
  inferInstanceAs (Decidable (_ ∧ _))

def CommissionArgs.devtaxScriptpubForHeight (SCRIPTPUB : List Byte) (nHeight : Nat) :
    List Byte :=
  if a.UsesTable nHeight then devtaxScript nHeight else SCRIPTPUB

end Configuration

section Commission

def COIN : BitVec 64 := 100000000

variable (a : CommissionArgs)

def CommissionArgs.foundersCommission (nSubsidy : BitVec 64) (height : Nat) : BitVec 64 :=
  let commission := if a.eras.ishush3 then BitVec.ofNat 64 (hushCommission a.eras.z2zheight height)
    else nSubsidy*a.COMMISSION/COIN
  if a.FOUNDERS.toInt>1 then
    if height%a.FOUNDERS.toNat=0 then
      if a.FOUNDERS_REWARD=0 then commission*a.FOUNDERS.setWidth 64 else a.FOUNDERS_REWARD
    else 0
  else commission

/-- The loop over the outputs of transaction `i`. -/
def sumVout (i : Nat) : List CTxOut → Nat → BitVec 64 → BitVec 64
  | [],_,total => total
  | out::vout,j,total =>
      let total := if i≠0 ∨ j≠1 then total+out.nValue else total
      if total>1000000*COIN then 1000000*COIN else sumVout i vout (j+1) total

/-- The loop over the transactions; a stake at the end of the block does not count. -/
def sumVtx (staked : Bool) : List (List CTxOut) → Nat → BitVec 64 → BitVec 64
  | [],_,total => total
  | vout::vtx,i,total =>
      let counted := if staked && vtx.isEmpty && decide (i≠0) then vout.dropLast else vout
      sumVtx staked vtx (i+1) (sumVout i counted 0 total)

/-- Less than 10000 is not paid. -/
def noDust (commission : BitVec 64) : BitVec 64 := if commission<10000 then 0 else commission

/-- Of the transactions of the block only the outputs count. -/
def CommissionArgs.theCommission (cache : SubsidyCache) (vtx : List (List CTxOut))
    (height : Nat) : BitVec 64 × SubsidyCache :=
  if a.FOUNDERS≠0 then
    let (nSubsidy,cache) := a.eras.hushScBlockSubsidy height cache
    (noDust (a.foundersCommission nSubsidy height),cache)
  else
    let total := sumVtx (decide (height>225000) && a.eras.STAKED) vtx 0 0
    (noDust (total/10000*a.COMMISSION/10000),cache)

/-- The script to which the commission goes. -/
def CommissionArgs.payScript (scriptpub : List Byte) : List Byte :=
  if scriptpub.length>1 then Kv.decodeHex scriptpub
  else 33::(a.OVERRIDE_PUBKEY33++[OP_CHECKSIG])

def HUSH_EARLYTXID_HEIGHT : Nat := 100

/-- The condition in front of `hush_appendACscriptpub`. -/
def CommissionArgs.MayAppend (didinit : Bool) (height : Nat) : Prop :=
  didinit=false ∧ height>HUSH_EARLYTXID_HEIGHT ∧ a.EARLYTXID≠0

instance (didinit : Bool) (height : Nat) : Decidable (a.MayAppend didinit height) :=
  inferInstanceAs (Decidable (_ ∧ _))

/-- What `CreateNewBlock` has when it comes to the outputs of the coinbase. -/
structure BlockTemplate where
  nTime : BitVec 32
  scriptPubKeyIn : List Byte
  nFees : BitVec 64
  vtx : List (List CTxOut)
  fNotarizationBlock : Bool
  NotarizationNotaries : List Nat
  view : MinerView
  locals : PayLocals

def CommissionArgs.minerOut (cache : SubsidyCache) (t : BlockTemplate) (height : Nat) :
    CTxOut := ⟨(a.eras.hushScBlockSubsidy height cache).1+t.nFees,t.scriptPubKeyIn⟩

/-- The outputs of a coinbase without a commission; `none` when there is no block, as after a
crash in `hush_notarypay`. -/
def CommissionArgs.plainCoinbase (t : BlockTemplate) (out : CTxOut) (height : Nat) :
    Option (List CTxOut) :=
  if out.nValue≥a.TIMELOCKGTE then none
  else if t.fNotarizationBlock=true ∧ a.ASSETCHAINS_NOTARY_PAY 0≠0 then
    match t.vtx with
    | [_,opret]::_ =>
        if opret.nValue=0 ∧ opret.scriptPubKey.getD 0 0=0x6a then
          match a.hushNotarypay t.locals [out] t.NotarizationNotaries t.nTime
            (BitVec.ofNat 32 height) opret.scriptPubKey with
          | .error _ => none
          | .ok (totalsats,vout) =>
              if totalsats=0 then none else some (vout++t.view.cbopret)
        else some (out::t.view.cbopret)
    | _ => some (out::t.view.cbopret)
  else some (out::t.view.cbopret)

/-- The call of `hush_appendACscriptpub` in `CreateNewBlock`. -/
def CommissionArgs.minerAppend (p : Process) (env : Surroundings) (height : Nat) : Process :=
  if a.MayAppend p.minerInit height then
    let (done,p) := p.hushAppendACscriptpub env
    if done then {p with minerInit := true} else p
  else p

/-- The call of `hush_appendACscriptpub` in `hush_checkcommission`. -/
def CommissionArgs.checkAppend (p : Process) (env : Surroundings) (height : Nat) : Process :=
  if a.MayAppend p.checkInit height then
    let (done,p) := p.hushAppendACscriptpub env
    if done then {p with checkInit := true} else p
  else p

/-- The outputs of the coinbase that `CreateNewBlock` builds. -/
def CommissionArgs.createNewBlock (p : Process) (env : Surroundings) (t : BlockTemplate)
    (height : Nat) : Option (List CTxOut) × Process :=
  let out := a.minerOut p.cache t height
  let p := {p with cache := (a.eras.hushScBlockSubsidy height p.cache).2}
  let scriptpub := a.devtaxScriptpubForHeight p.SCRIPTPUB height
  if 1 < height ∧ (a.OVERRIDE_PUBKEY33.getD 0 0≠0 ∨ scriptpub.length>1) ∧
      (a.COMMISSION≠0 ∨ a.FOUNDERS_REWARD≠0) then
    let (commission,cache) := a.theCommission p.cache ([out]::t.vtx) height
    let p := {p with cache := cache}
    if commission≠0 then
      let p := if scriptpub.length>1 then a.minerAppend p env height else p
      (some (out::⟨commission,a.payScript scriptpub⟩::t.view.cbopret),p)
    else (a.plainCoinbase t out height,p)
  else (a.plainCoinbase t out height,p)

def scripthexSize : Nat := 8192

/-- The output pays to the script, or to the founders key, or to its hash. -/
def CommissionArgs.Matched (scriptpub script : List Byte) : Prop :=
  if scriptpub.length>1 then
    scriptpub.length/2=script.length ∧ script.length<scripthexSize ∧
      Kv.decodeHex scriptpub=script
  else
    payToPubkey script ∧ pubkeyOf script=a.OVERRIDE_PUBKEY33 ∨
      script.length=25 ∧ script.take 3=[0x76,0xa9,20] ∧ script.drop 23=[0x88,OP_CHECKSIG] ∧
        (script.drop 3).take 20=a.OVERRIDE_PUBKEYHASH

instance (scriptpub script : List Byte) : Decidable (a.Matched scriptpub script) := by
  unfold CommissionArgs.Matched
  infer_instance

/-- The outputs of the block are checked; the result -1 is an invalid commission. -/
def CommissionArgs.hushCheckcommission (p : Process) (env : Surroundings)
    (vtx : List (List CTxOut)) (height : Nat) : Int × Process :=
  let scriptpub := a.devtaxScriptpubForHeight p.SCRIPTPUB height
  if a.COMMISSION≠0 ∨ a.FOUNDERS_REWARD≠0 then
    let (checktoshis,cache) := a.theCommission p.cache vtx height
    let p := {p with cache := cache}
    let vout := vtx.headD []
    if checktoshis.toInt≥10000 ∧ vout.length<2 then (-1,p)
    else if checktoshis≠0 then
      let out := vout.getD 1 nullOut
      let p := if scriptpub.length>1 then a.checkAppend p env height else p
      if ¬a.Matched scriptpub out.scriptPubKey then (-1,p)
      else if out.nValue≠checktoshis then (-1,p)
      else (checktoshis.toInt,p)
    else (checktoshis.toInt,p)
  else (0,p)

end Commission

section Calls

/-- What the process may do before a block is mined or checked. -/
inductive Call
  | subsidy (height : Nat)
  | mine (env : Surroundings) (t : BlockTemplate) (height : Nat)
  | check (env : Surroundings) (vtx : List (List CTxOut)) (height : Nat)

variable (a : CommissionArgs)

def CommissionArgs.call (p : Process) : Call → Process
  | .subsidy height => {p with cache := (a.eras.hushScBlockSubsidy height p.cache).2}
  | .mine env t height => (a.createNewBlock p env t height).2
  | .check env vtx height => (a.hushCheckcommission p env vtx height).2

def CommissionArgs.after (p : Process) (calls : List Call) : Process := calls.foldl a.call p

/-- The commission of a block, which no earlier call changes. -/
def CommissionArgs.commissionOf (vtx : List (List CTxOut)) (height : Nat) : BitVec 64 :=
  (a.theCommission .init vtx height).1

/-- The commission of the template, whose coinbase has one output. -/
def CommissionArgs.templateCommission (t : BlockTemplate) (height : Nat) : BitVec 64 :=
  a.commissionOf ([a.minerOut .init t height]::t.vtx) height

/-- The surroundings in which a call comes to `hush_appendACscriptpub`. -/
def CommissionArgs.asks (p : Process) : Call → Option Surroundings
  | .subsidy _ => none
  | .mine env t height =>
      if 1 < height ∧ (a.COMMISSION≠0 ∨ a.FOUNDERS_REWARD≠0) ∧ a.templateCommission t height≠0 ∧
          (a.devtaxScriptpubForHeight p.SCRIPTPUB height).length>1 ∧
          a.MayAppend p.minerInit height then some env
      else none
  | .check env vtx height =>
      if (a.COMMISSION≠0 ∨ a.FOUNDERS_REWARD≠0) ∧ a.commissionOf vtx height≠0 ∧
          ¬((a.commissionOf vtx height).toInt≥10000 ∧ (vtx.headD []).length<2) ∧
          (a.devtaxScriptpubForHeight p.SCRIPTPUB height).length>1 ∧
          a.MayAppend p.checkInit height then some env
      else none

/-- The call replaces the end of the script by the data of the early transaction. -/
def CommissionArgs.AppendsData (p : Process) (c : Call) (data : List Byte) : Prop :=
  p.appendInit=false ∧ ∃env,a.asks p c=some env ∧ env.marked p.SCRIPTPUB=true ∧
    env.opret=some data

/-- After the call the commission goes to another script. -/
def CommissionArgs.Rewrites (p : Process) (c : Call) : Prop :=
  ∃data,a.AppendsData p c data ∧
    a.payScript (appended p.SCRIPTPUB data)≠a.payScript p.SCRIPTPUB

/-- No call of a run rewrites the script. -/
def CommissionArgs.Quiet : Process → List Call → Prop
  | _,[] => True
  | p,c::calls => ¬a.Rewrites p c ∧ CommissionArgs.Quiet (a.call p c) calls

end Calls

section Effects

variable {a : CommissionArgs} {p : Process}

theorem subsidy_eq_init {c : EraArgs} {s : SubsidyCache} (hs : s.Valid c) (nHeight : Nat) :
    (c.hushScBlockSubsidy nHeight s).1=(c.hushScBlockSubsidy nHeight .init).1 := by
  have hinit : SubsidyCache.init.Valid c := after_valid c []
  have hera : ∀curEra,(c.eraSubsidy nHeight curEra s).1=(c.eraSubsidy nHeight curEra .init).1 := by
    intro curEra
    unfold EraArgs.eraSubsidy
    dsimp only
    split_ifs <;> first | rfl | rw [(decayedSubsidy_valid hs _).1,(decayedSubsidy_valid hinit _).1]
  have hmined : (c.minedSubsidy nHeight s).1=(c.minedSubsidy nHeight .init).1 := by
    unfold EraArgs.minedSubsidy
    split_ifs
    · rfl
    · exact hera _
    · rfl
  rw [EraArgs.hushScBlockSubsidy,hmined]
  rfl

theorem theCommission_spec {s : SubsidyCache} (hs : s.Valid a.eras) (vtx : List (List CTxOut))
    (height : Nat) : (a.theCommission s vtx height).1=a.commissionOf vtx height ∧
      (a.theCommission s vtx height).2.Valid a.eras := by
  unfold CommissionArgs.commissionOf CommissionArgs.theCommission
  split_ifs
  · dsimp only
    rw [subsidy_eq_init hs]
    exact ⟨rfl,hushScBlockSubsidy_valid hs⟩
  · exact ⟨rfl,hs⟩

theorem minerOut_eq (hp : p.cache.Valid a.eras) (t : BlockTemplate) (height : Nat) :
    a.minerOut p.cache t height=a.minerOut .init t height := by
  unfold CommissionArgs.minerOut
  rw [subsidy_eq_init hp]

/-- The process after a call that may have come to `hush_appendACscriptpub`. -/
def Process.appendWith (p : Process) : Option Surroundings → Process
  | none => p
  | some env => (p.hushAppendACscriptpub env).2

/-- The same script, rewritten or not. -/
structure SameScript (q p : Process) : Prop where
  script : q.SCRIPTPUB=p.SCRIPTPUB
  appendInit : q.appendInit=p.appendInit

theorem SameScript.trans {p q r : Process} (h : SameScript p q) (h' : SameScript q r) :
    SameScript p r := ⟨h.script.trans h'.script,h.appendInit.trans h'.appendInit⟩

theorem SameScript.appendWith {q : Process} (h : SameScript q p) (o : Option Surroundings) :
    SameScript (q.appendWith o) (p.appendWith o) := by
  cases o with
  | none => exact h
  | some env =>
    change SameScript (q.hushAppendACscriptpub env).2 (p.hushAppendACscriptpub env).2
    unfold Process.hushAppendACscriptpub
    rw [h.script,h.appendInit]
    split_ifs
    · exact h
    · cases env.opret with
      | none => exact h
      | some data => exact ⟨rfl,rfl⟩
    · exact h

theorem appendWith_cache (p : Process) (o : Option Surroundings) :
    (p.appendWith o).cache=p.cache := by
  cases o with
  | none => rfl
  | some env =>
    change (p.hushAppendACscriptpub env).2.cache=p.cache
    unfold Process.hushAppendACscriptpub
    split_ifs
    · rfl
    · cases env.opret <;> rfl
    · rfl

theorem minerAppend_spec (p : Process) (env : Surroundings) (height : Nat) :
    SameScript (a.minerAppend p env height)
        (p.appendWith (if a.MayAppend p.minerInit height then some env else none)) ∧
      (a.minerAppend p env height).cache=p.cache := by
  have hcache := appendWith_cache p (some env)
  unfold CommissionArgs.minerAppend
  split_ifs with hmay
  · dsimp only
    split_ifs <;> exact ⟨⟨rfl,rfl⟩,hcache⟩
  · exact ⟨⟨rfl,rfl⟩,rfl⟩

theorem checkAppend_spec (p : Process) (env : Surroundings) (height : Nat) :
    SameScript (a.checkAppend p env height)
        (p.appendWith (if a.MayAppend p.checkInit height then some env else none)) ∧
      (a.checkAppend p env height).cache=p.cache := by
  have hcache := appendWith_cache p (some env)
  unfold CommissionArgs.checkAppend
  split_ifs with hmay
  · dsimp only
    split_ifs <;> exact ⟨⟨rfl,rfl⟩,hcache⟩
  · exact ⟨⟨rfl,rfl⟩,rfl⟩

/-- The coinbase in terms of the template alone. -/
theorem createNewBlock_fst (hp : p.cache.Valid a.eras) (env : Surroundings)
    (t : BlockTemplate) (height : Nat) :
    (a.createNewBlock p env t height).1=
      if 1 < height ∧ (a.OVERRIDE_PUBKEY33.getD 0 0≠0 ∨
          (a.devtaxScriptpubForHeight p.SCRIPTPUB height).length>1) ∧
          (a.COMMISSION≠0 ∨ a.FOUNDERS_REWARD≠0) ∧ a.templateCommission t height≠0 then
        some (a.minerOut .init t height::⟨a.templateCommission t height,
          a.payScript (a.devtaxScriptpubForHeight p.SCRIPTPUB height)⟩::t.view.cbopret)
      else a.plainCoinbase t (a.minerOut .init t height) height := by
  have hvalid : (a.eras.hushScBlockSubsidy height p.cache).2.Valid a.eras :=
    hushScBlockSubsidy_valid hp
  have hvalue : (a.theCommission (a.eras.hushScBlockSubsidy height p.cache).2
      ([a.minerOut .init t height]::t.vtx) height).1=a.templateCommission t height :=
    (theCommission_spec hvalid _ _).1
  unfold CommissionArgs.createNewBlock
  dsimp only
  rw [minerOut_eq hp,hvalue]
  by_cases hguard : 1 < height ∧ (a.OVERRIDE_PUBKEY33.getD 0 0≠0 ∨
      (a.devtaxScriptpubForHeight p.SCRIPTPUB height).length>1) ∧
      (a.COMMISSION≠0 ∨ a.FOUNDERS_REWARD≠0)
  · by_cases hzero : a.templateCommission t height=0
    · rw [if_pos hguard,if_neg (fun h => h hzero),if_neg (fun h => h.2.2.2 hzero)]
    · have hall : 1 < height ∧ (a.OVERRIDE_PUBKEY33.getD 0 0≠0 ∨
          (a.devtaxScriptpubForHeight p.SCRIPTPUB height).length>1) ∧
          (a.COMMISSION≠0 ∨ a.FOUNDERS_REWARD≠0) ∧ a.templateCommission t height≠0 :=
        ⟨hguard.1,hguard.2.1,hguard.2.2,hzero⟩
      rw [if_pos hguard,if_pos hzero,if_pos hall]
  · rw [if_neg hguard,if_neg (fun h => hguard ⟨h.1,h.2.1,h.2.2.1⟩)]

theorem createNewBlock_snd (hp : p.cache.Valid a.eras) (env : Surroundings)
    (t : BlockTemplate) (height : Nat) :
    (a.createNewBlock p env t height).2.cache.Valid a.eras ∧
      SameScript (a.createNewBlock p env t height).2
        (p.appendWith (a.asks p (.mine env t height))) := by
  have hvalid : (a.eras.hushScBlockSubsidy height p.cache).2.Valid a.eras :=
    hushScBlockSubsidy_valid hp
  obtain ⟨hvalue,hnext⟩ := theCommission_spec hvalid ([a.minerOut .init t height]::t.vtx) height
  change _=a.templateCommission t height at hvalue
  unfold CommissionArgs.createNewBlock CommissionArgs.asks
  dsimp only
  rw [minerOut_eq hp,hvalue]
  by_cases hguard : 1 < height ∧ (a.OVERRIDE_PUBKEY33.getD 0 0≠0 ∨
      (a.devtaxScriptpubForHeight p.SCRIPTPUB height).length>1) ∧
      (a.COMMISSION≠0 ∨ a.FOUNDERS_REWARD≠0)
  · rw [if_pos hguard]
    by_cases hzero : a.templateCommission t height=0
    · rw [if_neg (fun h => h hzero),if_neg (fun h => h.2.2.1 hzero)]
      exact ⟨hnext,⟨rfl,rfl⟩⟩
    · rw [if_pos hzero]
      by_cases hlong : (a.devtaxScriptpubForHeight p.SCRIPTPUB height).length>1
      · obtain ⟨hsame,hcache⟩ := minerAppend_spec (a := a) ⟨p.SCRIPTPUB,p.appendInit,p.minerInit,
          p.checkInit,(a.theCommission (a.eras.hushScBlockSubsidy height p.cache).2
            ([a.minerOut .init t height]::t.vtx) height).2⟩ env height
        rw [if_pos hlong]
        refine ⟨by rw [hcache]; exact hnext,hsame.trans ?_⟩
        have hask : (1 < height ∧ (a.COMMISSION≠0 ∨ a.FOUNDERS_REWARD≠0) ∧
            a.templateCommission t height≠0 ∧
            (a.devtaxScriptpubForHeight p.SCRIPTPUB height).length>1 ∧
            a.MayAppend p.minerInit height) ↔ a.MayAppend p.minerInit height :=
          ⟨fun h => h.2.2.2.2,fun h => ⟨hguard.1,hguard.2.2,hzero,hlong,h⟩⟩
        simp only [hask]
        apply SameScript.appendWith
        exact ⟨rfl,rfl⟩
      · rw [if_neg hlong,if_neg (fun h => hlong h.2.2.2.1)]
        exact ⟨hnext,⟨rfl,rfl⟩⟩
  · rw [if_neg hguard,if_neg (fun h => hguard ⟨h.1,.inr h.2.2.2.1,h.2.1⟩)]
    exact ⟨hvalid,⟨rfl,rfl⟩⟩

/-- The result of the check in terms of the script that it copied. -/
theorem hushCheckcommission_fst (hp : p.cache.Valid a.eras) (env : Surroundings)
    (coinbase : List CTxOut) (vtx : List (List CTxOut)) (height : Nat)
    (hreward : a.COMMISSION≠0 ∨ a.FOUNDERS_REWARD≠0) :
    (a.hushCheckcommission p env (coinbase::vtx) height).1=
      if (a.commissionOf (coinbase::vtx) height).toInt≥10000 ∧ coinbase.length<2 then -1
      else if a.commissionOf (coinbase::vtx) height≠0 then
        if a.Matched (a.devtaxScriptpubForHeight p.SCRIPTPUB height)
              (coinbase.getD 1 nullOut).scriptPubKey ∧
            (coinbase.getD 1 nullOut).nValue=a.commissionOf (coinbase::vtx) height then
          (a.commissionOf (coinbase::vtx) height).toInt
        else -1
      else 0 := by
  unfold CommissionArgs.hushCheckcommission
  dsimp only
  rw [if_pos hreward,(theCommission_spec hp (coinbase::vtx) height).1,List.headD_cons]
  by_cases hshort : (a.commissionOf (coinbase::vtx) height).toInt≥10000 ∧ coinbase.length<2
  · rw [if_pos hshort,if_pos hshort]
  · rw [if_neg hshort,if_neg hshort]
    by_cases hzero : a.commissionOf (coinbase::vtx) height=0
    · rw [if_neg (fun h => h hzero),if_neg (fun h => h hzero),hzero]
      rfl
    · rw [if_pos hzero,if_pos hzero]
      by_cases hpaid : a.Matched (a.devtaxScriptpubForHeight p.SCRIPTPUB height)
            (coinbase.getD 1 nullOut).scriptPubKey ∧
          (coinbase.getD 1 nullOut).nValue=a.commissionOf (coinbase::vtx) height
      · rw [if_pos hpaid,if_neg (fun h => h hpaid.1),if_neg (fun h => h hpaid.2)]
      · rw [if_neg hpaid]
        by_cases hmatched : a.Matched (a.devtaxScriptpubForHeight p.SCRIPTPUB height)
            (coinbase.getD 1 nullOut).scriptPubKey
        · rw [if_neg (fun h => h hmatched),if_pos fun h => hpaid ⟨hmatched,h⟩]
        · rw [if_pos hmatched]

theorem hushCheckcommission_snd (hp : p.cache.Valid a.eras) (env : Surroundings)
    (vtx : List (List CTxOut)) (height : Nat) :
    (a.hushCheckcommission p env vtx height).2.cache.Valid a.eras ∧
      SameScript (a.hushCheckcommission p env vtx height).2
        (p.appendWith (a.asks p (.check env vtx height))) := by
  obtain ⟨hvalue,hnext⟩ := theCommission_spec hp vtx height
  unfold CommissionArgs.hushCheckcommission CommissionArgs.asks
  dsimp only
  rw [hvalue]
  by_cases hreward : a.COMMISSION≠0 ∨ a.FOUNDERS_REWARD≠0
  · rw [if_pos hreward]
    by_cases hshort : (a.commissionOf vtx height).toInt≥10000 ∧ (vtx.headD []).length<2
    · rw [if_pos hshort,if_neg (fun h => h.2.2.1 hshort)]
      exact ⟨hnext,⟨rfl,rfl⟩⟩
    · rw [if_neg hshort]
      by_cases hzero : a.commissionOf vtx height=0
      · rw [if_neg (fun h => h hzero),if_neg (fun h => h.2.1 hzero)]
        exact ⟨hnext,⟨rfl,rfl⟩⟩
      · rw [if_pos hzero]
        by_cases hlong : (a.devtaxScriptpubForHeight p.SCRIPTPUB height).length>1
        · obtain ⟨hsame,hcache⟩ := checkAppend_spec (a := a) ⟨p.SCRIPTPUB,p.appendInit,
            p.minerInit,p.checkInit,(a.theCommission p.cache vtx height).2⟩ env height
          have hask : ((a.COMMISSION≠0 ∨ a.FOUNDERS_REWARD≠0) ∧ a.commissionOf vtx height≠0 ∧
              ¬((a.commissionOf vtx height).toInt≥10000 ∧ (vtx.headD []).length<2) ∧
              (a.devtaxScriptpubForHeight p.SCRIPTPUB height).length>1 ∧
              a.MayAppend p.checkInit height) ↔ a.MayAppend p.checkInit height :=
            ⟨fun h => h.2.2.2.2,fun h => ⟨hreward,hzero,hshort,hlong,h⟩⟩
          simp only [hask]
          rw [if_pos hlong]
          have hboth : (a.checkAppend ⟨p.SCRIPTPUB,p.appendInit,p.minerInit,p.checkInit,
              (a.theCommission p.cache vtx height).2⟩ env height).cache.Valid a.eras ∧
              SameScript (a.checkAppend ⟨p.SCRIPTPUB,p.appendInit,p.minerInit,p.checkInit,
                (a.theCommission p.cache vtx height).2⟩ env height)
                (p.appendWith (if a.MayAppend p.checkInit height then some env else none)) := by
            refine ⟨by rw [hcache]; exact hnext,hsame.trans ?_⟩
            apply SameScript.appendWith
            exact ⟨rfl,rfl⟩
          generalize (if a.MayAppend p.checkInit height then some env else none)=o at hboth ⊢
          split_ifs <;> exact hboth
        · have hask : ¬((a.COMMISSION≠0 ∨ a.FOUNDERS_REWARD≠0) ∧ a.commissionOf vtx height≠0 ∧
              ¬((a.commissionOf vtx height).toInt≥10000 ∧ (vtx.headD []).length<2) ∧
              (a.devtaxScriptpubForHeight p.SCRIPTPUB height).length>1 ∧
              a.MayAppend p.checkInit height) := fun h => hlong h.2.2.2.1
          rw [if_neg hlong,if_neg hask]
          split_ifs <;> exact ⟨hnext,⟨rfl,rfl⟩⟩
  · rw [if_neg hreward,if_neg (fun h => hreward h.1)]
    exact ⟨hp,⟨rfl,rfl⟩⟩

/-- What a call does to the script, and that it keeps the cache valid. -/
theorem call_spec (hp : p.cache.Valid a.eras) (c : Call) :
    (a.call p c).cache.Valid a.eras ∧ SameScript (a.call p c) (p.appendWith (a.asks p c)) := by
  cases c with
  | subsidy height => exact ⟨hushScBlockSubsidy_valid hp,⟨rfl,rfl⟩⟩
  | mine env t height => exact createNewBlock_snd hp env t height
  | check env vtx height => exact hushCheckcommission_snd hp env vtx height

end Effects

section Script

variable {a : CommissionArgs} {p : Process}

theorem appended_isHex {str : List Byte} (h : IsHex str) (data : List Byte) :
    IsHex (appended str data) := by
  have hdata := isHex_hexStr data
  have heven := h.even
  constructor
  · rw [appended,List.length_append,List.length_dropLast,List.length_dropLast,Nat.add_mod,
      hdata.even]
    omega
  · intro ch hch
    rcases List.mem_append.mp hch with hold | hnew
    · exact h.digits ch (List.dropLast_subset _ (List.dropLast_subset _ hold))
    · exact hdata.digits ch hnew

/-- A call leaves the script and the flag as they were, or adds the data and sets the
flag. -/
theorem call_script (hp : p.cache.Valid a.eras) (c : Call) :
    ((∃data,a.AppendsData p c data ∧ (a.call p c).SCRIPTPUB=appended p.SCRIPTPUB data) ∧
        (a.call p c).appendInit=true) ∨
      (¬∃data,a.AppendsData p c data) ∧ (a.call p c).SCRIPTPUB=p.SCRIPTPUB ∧
        (a.call p c).appendInit=p.appendInit := by
  obtain ⟨-,hscript,hinit⟩ := call_spec hp c
  rw [hscript,hinit]
  unfold CommissionArgs.AppendsData
  cases hasks : a.asks p c with
  | none =>
    refine .inr ⟨?_,rfl,rfl⟩
    rintro ⟨data,-,env,hsome,-⟩
    cases hsome
  | some env =>
    change ((∃data,_ ∧ (p.hushAppendACscriptpub env).2.SCRIPTPUB=_) ∧
      (p.hushAppendACscriptpub env).2.appendInit=_) ∨ _ ∧
        (p.hushAppendACscriptpub env).2.SCRIPTPUB=_ ∧
          (p.hushAppendACscriptpub env).2.appendInit=_
    unfold Process.hushAppendACscriptpub
    by_cases hdone : p.appendInit=true
    · rw [if_pos hdone]
      refine .inr ⟨?_,rfl,rfl⟩
      rintro ⟨data,hfresh,-⟩
      rw [hdone] at hfresh
      cases hfresh
    · rw [if_neg hdone]
      by_cases hmarked : env.marked p.SCRIPTPUB=true
      · rw [if_pos hmarked]
        cases hopret : env.opret with
        | none =>
          refine .inr ⟨?_,rfl,rfl⟩
          rintro ⟨data,-,env',henv,-,hdata⟩
          obtain rfl := Option.some.inj henv
          rw [hopret] at hdata
          cases hdata
        | some data =>
          exact .inl ⟨⟨data,⟨by simpa using hdone,env,rfl,hmarked,hopret⟩,rfl⟩,rfl⟩
      · rw [if_neg hmarked]
        refine .inr ⟨?_,rfl,rfl⟩
        rintro ⟨data,-,env',henv,htrue,-⟩
        obtain rfl := Option.some.inj henv
        exact hmarked htrue

theorem after_cons (a : CommissionArgs) (p : Process) (c : Call) (calls : List Call) :
    a.after p (c::calls)=a.after (a.call p c) calls := rfl

/-- Once the data is added, the script stays. -/
theorem after_done (calls : List Call) (hp : p.cache.Valid a.eras) (hdone : p.appendInit=true) :
    (a.after p calls).SCRIPTPUB=p.SCRIPTPUB ∧ a.Quiet p calls := by
  induction calls generalizing p with
  | nil => exact ⟨rfl,trivial⟩
  | cons c calls ih =>
    have hnot : ¬∃data,a.AppendsData p c data := by
      rintro ⟨data,hfresh,-⟩
      rw [hdone] at hfresh
      cases hfresh
    rcases call_script hp c with ⟨⟨data,happends,-⟩,-⟩ | ⟨-,hscript,hinit⟩
    · exact absurd ⟨data,happends⟩ hnot
    · obtain ⟨hrest,hquiet⟩ := ih (call_spec hp c).1 (hinit.trans hdone)
      rw [after_cons,hrest,hscript]
      exact ⟨rfl,fun ⟨data,happends,_⟩ => hnot ⟨data,happends⟩,hquiet⟩

/-- The state that a run leaves behind. -/
theorem after_spec (calls : List Call) (hp : p.cache.Valid a.eras) (hhex : IsHex p.SCRIPTPUB) :
    (a.after p calls).cache.Valid a.eras ∧ IsHex (a.after p calls).SCRIPTPUB ∧
      ((a.after p calls).SCRIPTPUB=p.SCRIPTPUB ∨
        ∃data,(a.after p calls).SCRIPTPUB=appended p.SCRIPTPUB data) := by
  induction calls generalizing p with
  | nil => exact ⟨hp,hhex,.inl rfl⟩
  | cons c calls ih =>
    have hcache := (call_spec hp c).1
    rcases call_script hp c with ⟨⟨data,-,hscript⟩,hdone⟩ | ⟨-,hscript,-⟩
    · have hnext : IsHex (a.call p c).SCRIPTPUB := by
        rw [hscript]
        exact appended_isHex hhex data
      obtain ⟨hvalid,hfinal,-⟩ := ih hcache hnext
      refine ⟨hvalid,hfinal,.inr ⟨data,?_⟩⟩
      rw [after_cons,(after_done calls hcache hdone).1,hscript]
    · have hnext : IsHex (a.call p c).SCRIPTPUB := by
        rw [hscript]
        exact hhex
      rw [after_cons,←hscript]
      exact ih hcache hnext

/-- The commission goes to the same script after a run exactly when no call of the run
rewrites it. -/
theorem payScript_after_iff (calls : List Call) (hp : p.cache.Valid a.eras) :
    a.payScript (a.after p calls).SCRIPTPUB=a.payScript p.SCRIPTPUB ↔ a.Quiet p calls := by
  induction calls generalizing p with
  | nil => exact ⟨fun _ => trivial,fun _ => rfl⟩
  | cons c calls ih =>
    have hcache := (call_spec hp c).1
    rw [after_cons]
    rcases call_script hp c with ⟨⟨data,happends,hscript⟩,hdone⟩ | ⟨hnot,hscript,-⟩
    · obtain ⟨hsame,hquiet⟩ := after_done (a := a) calls hcache hdone
      rw [hsame,hscript]
      constructor
      · intro heq
        refine ⟨?_,hquiet⟩
        rintro ⟨data',happends',hne⟩
        obtain ⟨-,env,hasks,-,hdata⟩ := happends
        obtain ⟨-,env',hasks',-,hdata'⟩ := happends'
        obtain rfl := Option.some.inj (hasks.symm.trans hasks')
        obtain rfl := Option.some.inj (hdata.symm.trans hdata')
        exact hne heq
      · rintro ⟨hno,-⟩
        by_contra hne
        exact hno ⟨data,happends,hne⟩
    · rw [←hscript,ih hcache]
      exact ⟨fun h => ⟨fun ⟨data,happends,_⟩ => hnot ⟨data,happends⟩,h⟩,fun h => h.2⟩

theorem IsHex.eq_nil {str : List Byte} (h : IsHex str) (hshort : ¬str.length>1) : str=[] := by
  have heven := h.even
  exact List.eq_nil_of_length_eq_zero (by omega)

/-- The check accepts what the miner wrote exactly when the script to pay is the same, up
to the size of the buffer. -/
theorem matched_payScript_iff {str str' : List Byte} (hhex : IsHex str) (hhex' : IsHex str')
    (hlink : str'=str ∨ ∃data,str'=appended str data) :
    a.Matched str' (a.payScript str) ↔
      (a.payScript str).length<scripthexSize ∧ a.payScript str'=a.payScript str := by
  unfold CommissionArgs.Matched
  by_cases hlong : str'.length>1
  · rw [if_pos hlong]
    have hpay : a.payScript str'=Kv.decodeHex str' := if_pos hlong
    rw [hpay]
    refine ⟨fun h => ⟨h.2.1,h.2.2⟩,fun h => ⟨?_,h.1,h.2⟩⟩
    rw [←h.2,length_decodeHex]
  · rw [if_neg hlong]
    have hnil := hhex'.eq_nil hlong
    have hkey : a.payScript []=33::(a.OVERRIDE_PUBKEY33++[OP_CHECKSIG]) := rfl
    have hlen : (a.payScript []).length=35 := by
      rw [hkey,List.length_cons,List.length_append,a.pubkey33_length]
      rfl
    by_cases hold : str.length>1
    · have hone : str.length=2 := by
        rcases hlink with heq | ⟨data,heq⟩
        · rw [heq] at hlong
          exact absurd hold hlong
        · rw [hnil,appended] at heq
          have hdrop := congrArg List.length (List.append_eq_nil_iff.mp heq.symm).1
          rw [List.length_dropLast,List.length_dropLast,List.length_nil] at hdrop
          omega
      have hbyte : (a.payScript str).length=1 := by
        rw [CommissionArgs.payScript,if_pos hold,length_decodeHex,hone]
      constructor
      · rintro (⟨⟨h35,-⟩,-⟩ | ⟨h25,-⟩) <;> omega
      · rintro ⟨-,heq⟩
        rw [hnil] at heq
        rw [heq] at hlen
        omega
    · rw [hnil,hhex.eq_nil hold]
      refine ⟨fun _ => ⟨by rw [hlen]; decide,rfl⟩,fun _ => .inl ⟨⟨hlen,rfl,?_⟩,?_⟩⟩
      · rw [hkey]
        simp [List.getD,a.pubkey33_length]
      · rw [hkey,pubkeyOf,List.drop_one,List.tail_cons,List.take_append_of_le_length
          a.pubkey33_length.ge,List.take_of_length_le a.pubkey33_length.le]

end Script

section Mined

variable {a : CommissionArgs} {p : Process}

theorem cbopret_zero (view : MinerView) : ∀out∈view.cbopret,out.nValue=0 := by
  unfold MinerView.cbopret
  cases view.Mineropret with
  | none => exact fun out h => absurd h List.not_mem_nil
  | some prices => exact List.forall_mem_singleton.mpr rfl

theorem sumVout_zero {vout : List CTxOut} (hzero : ∀out∈vout,out.nValue=0) {total : BitVec 64}
    (hcap : ¬total>1000000*COIN) (i j : Nat) : sumVout i vout j total=total := by
  induction vout generalizing j with
  | nil => rfl
  | cons out vout ih =>
    have hadd : total+(0 : BitVec 64)=total := BitVec.add_zero total
    have hsame : (if i≠0 ∨ j≠1 then total+out.nValue else total)=total := by
      rw [hzero out List.mem_cons_self,hadd,ite_self]
    rw [sumVout,hsame,if_neg hcap]
    exact ih (fun o ho => hzero o (List.mem_cons_of_mem _ ho)) (j+1)

/-- The output behind the first one of the coinbase does not count. -/
theorem sumVout_coinbase (out : CTxOut) {tail : List CTxOut}
    (hzero : ∀o∈tail.drop 1,o.nValue=0) :
    sumVout 0 (out::tail) 0 0=sumVout 0 [out] 0 0 := by
  have hfirst : ∀rest,sumVout 0 (out::rest) 0 0=if 0+out.nValue>1000000*COIN then 1000000*COIN
      else sumVout 0 rest 1 (0+out.nValue) := fun rest => rfl
  rw [hfirst,hfirst]
  by_cases hcap : 0+out.nValue>1000000*COIN
  · rw [if_pos hcap,if_pos hcap]
  · rw [if_neg hcap,if_neg hcap]
    cases tail with
    | nil => rfl
    | cons second tail =>
      have hskip : sumVout 0 (second::tail) 1 (0+out.nValue)=
          if 0+out.nValue>1000000*COIN then 1000000*COIN
          else sumVout 0 tail 2 (0+out.nValue) := rfl
      rw [hskip,if_neg hcap]
      exact sumVout_zero hzero hcap 0 2

theorem commissionOf_coinbase (a : CommissionArgs) (out : CTxOut) {tail : List CTxOut}
    (hzero : ∀o∈tail.drop 1,o.nValue=0) (vtx : List (List CTxOut)) (height : Nat) :
    a.commissionOf ((out::tail)::vtx) height=a.commissionOf ([out]::vtx) height := by
  unfold CommissionArgs.commissionOf CommissionArgs.theCommission
  split_ifs
  · rfl
  · dsimp only
    rw [sumVtx,sumVtx]
    simp only [ne_eq,not_true_eq_false,decide_false,Bool.and_false,Bool.false_eq_true,if_false,
      sumVout_coinbase out hzero]

/-- The commission of the finished block is that of the template. -/
theorem commissionOf_paid (a : CommissionArgs) (out paid : CTxOut) (view : MinerView)
    (vtx : List (List CTxOut)) (height : Nat) :
    a.commissionOf ((out::paid::view.cbopret)::vtx) height=a.commissionOf ([out]::vtx) height := by
  apply commissionOf_coinbase
  exact cbopret_zero view

theorem commissionOf_unfunded (hnone : a.COMMISSION=0 ∧ a.FOUNDERS=0)
    (vtx : List (List CTxOut)) (height : Nat) : a.commissionOf vtx height=0 := by
  unfold CommissionArgs.commissionOf CommissionArgs.theCommission
  have hmul : ∀total : BitVec 64,total/10000*0=0 := fun total => BitVec.mul_zero
  rw [if_neg (fun h => h hnone.2),hnone.1]
  dsimp only
  rw [hmul]
  rfl

theorem plainCoinbase_eq (hpay : a.ASSETCHAINS_NOTARY_PAY 0=0) {t : BlockTemplate}
    {out : CTxOut} {height : Nat} {coinbase : List CTxOut}
    (h : a.plainCoinbase t out height=some coinbase) : coinbase=out::t.view.cbopret := by
  have hnot : ¬(t.fNotarizationBlock=true ∧ a.ASSETCHAINS_NOTARY_PAY 0≠0) :=
    fun hboth => hboth.2 hpay
  unfold CommissionArgs.plainCoinbase at h
  rw [if_neg hnot] at h
  split_ifs at h
  exact (Option.some.inj h).symm

/-- The result that a mined block should give. -/
def Honored (result : Int) (commission : BitVec 64) (coinbase : List CTxOut) : Prop :=
  0 ≤ result ∧ result=if commission≠0 then (coinbase.getD 1 nullOut).nValue.toInt else 0

/-- When a commission is mined as it is checked: there is someone to pay, the amount is an
`int64_t`, the script fits into the buffer of the check, and no call from the mining of the
block on rewrites it. -/
structure Sound (a : CommissionArgs) (p : Process) (env : Surroundings) (t : BlockTemplate)
    (height : Nat) (between : List Call) : Prop where
  payable : a.OVERRIDE_PUBKEY33.getD 0 0≠0 ∨
    (a.devtaxScriptpubForHeight p.SCRIPTPUB height).length>1
  amount : (a.templateCommission t height).toNat<2^63
  fits : (a.payScript (a.devtaxScriptpubForHeight p.SCRIPTPUB height)).length<scripthexSize
  kept : a.UsesTable height ∨ a.Quiet p (.mine env t height::between)

theorem devtax_isHex (hhex : IsHex p.SCRIPTPUB) (height : Nat) :
    IsHex (a.devtaxScriptpubForHeight p.SCRIPTPUB height) := by
  unfold CommissionArgs.devtaxScriptpubForHeight
  split_ifs
  · exact isHex_hexStr _
  · exact hhex

/-- The check of a block whose coinbase pays the commission of its template. -/
theorem matched_after_iff (hp : p.cache.Valid a.eras) (hhex : IsHex p.SCRIPTPUB)
    (height : Nat) (calls : List Call) :
    a.Matched (a.devtaxScriptpubForHeight (a.after p calls).SCRIPTPUB height)
        (a.payScript (a.devtaxScriptpubForHeight p.SCRIPTPUB height)) ↔
      (a.payScript (a.devtaxScriptpubForHeight p.SCRIPTPUB height)).length<scripthexSize ∧
        (a.UsesTable height ∨ a.Quiet p calls) := by
  obtain ⟨-,hhex',hlink⟩ := after_spec calls hp hhex
  rw [matched_payScript_iff (devtax_isHex hhex height) (devtax_isHex hhex' height)]
  · refine and_congr_right fun _ => ?_
    unfold CommissionArgs.devtaxScriptpubForHeight
    by_cases htable : a.UsesTable height
    · rw [if_pos htable,if_pos htable]
      exact ⟨fun _ => .inl htable,fun _ => rfl⟩
    · rw [if_neg htable,if_neg htable,payScript_after_iff calls hp]
      exact ⟨.inr,fun h => h.resolve_left htable⟩
  · unfold CommissionArgs.devtaxScriptpubForHeight
    split_ifs
    · exact .inl rfl
    · exact hlink

/-- Without an output for it, the commission of the finished block is that of the
template. -/
theorem commissionOf_plain {t : BlockTemplate} {height : Nat} {coinbase : List CTxOut}
    (h : a.plainCoinbase t (a.minerOut .init t height) height=some coinbase) :
    a.commissionOf (coinbase::t.vtx) height=a.templateCommission t height ∧
      (a.templateCommission t height≠0 → (coinbase.getD 1 nullOut).nValue=0 ∨
        coinbase.length<2) := by
  rcases a.accepted with ⟨-,hpay⟩ | hnone
  · rw [plainCoinbase_eq hpay h]
    have hcb := cbopret_zero t.view
    refine ⟨commissionOf_coinbase a _ (fun o ho => hcb o (List.drop_subset _ _ ho)) _ _,?_⟩
    intro _
    cases hview : t.view.cbopret with
    | nil => exact .inr (by simp)
    | cons first rest =>
      rw [hview] at hcb
      exact .inl (hcb first List.mem_cons_self)
  · rw [commissionOf_unfunded hnone,CommissionArgs.templateCommission,
      commissionOf_unfunded hnone]
    exact ⟨rfl,fun h => absurd rfl h⟩

theorem toInt_nonneg_iff (commission : BitVec 64) :
    0 ≤ commission.toInt ↔ commission.toNat<2^63 := by
  have hlt := commission.isLt
  rw [BitVec.toInt_eq_toNat_cond]
  split_ifs <;> omega

/-- The check of a coinbase that pays the commission of its block. -/
theorem check_paid (hp : p.cache.Valid a.eras) (env : Surroundings)
    (hreward : a.COMMISSION≠0 ∨ a.FOUNDERS_REWARD≠0) {out : CTxOut} {commission : BitVec 64}
    {script : List Byte} {rest : List CTxOut} {vtx : List (List CTxOut)} {height : Nat}
    (hvalue : a.commissionOf ((out::⟨commission,script⟩::rest)::vtx) height=commission)
    (hne : commission≠0) :
    (a.hushCheckcommission p env ((out::⟨commission,script⟩::rest)::vtx) height).1=
      if a.Matched (a.devtaxScriptpubForHeight p.SCRIPTPUB height) script then commission.toInt
      else -1 := by
  have hlong : ¬(commission.toInt≥10000 ∧ (out::⟨commission,script⟩::rest).length<2) :=
    fun h => absurd h.2 (by simp)
  rw [hushCheckcommission_fst hp _ _ _ _ hreward,hvalue,if_neg hlong,if_pos hne]
  simp only [List.getD_cons_succ,List.getD_cons_zero,and_true]

/-- The check of a coinbase that leaves the commission of its block out. -/
theorem check_unpaid (hp : p.cache.Valid a.eras) (env : Surroundings)
    (hreward : a.COMMISSION≠0 ∨ a.FOUNDERS_REWARD≠0) {coinbase : List CTxOut}
    {vtx : List (List CTxOut)} {height : Nat} (hne : a.commissionOf (coinbase::vtx) height≠0)
    (hunpaid : (coinbase.getD 1 nullOut).nValue=0 ∨ coinbase.length<2) :
    (a.hushCheckcommission p env (coinbase::vtx) height).1=-1 := by
  have hnot : ¬(a.Matched (a.devtaxScriptpubForHeight p.SCRIPTPUB height)
      (coinbase.getD 1 nullOut).scriptPubKey ∧
      (coinbase.getD 1 nullOut).nValue=a.commissionOf (coinbase::vtx) height) := by
    rintro ⟨hmatched,hvalue⟩
    rcases hunpaid with hzero | hshort
    · exact hne (hvalue.symm.trans hzero)
    · have hnull : coinbase.getD 1 nullOut=nullOut := by
        rw [List.getD,List.getElem?_eq_none (by omega)]
        rfl
      rw [hnull] at hmatched
      unfold CommissionArgs.Matched at hmatched
      split_ifs at hmatched with hlong
      · have hlen : (a.devtaxScriptpubForHeight p.SCRIPTPUB height).length/2=0 := hmatched.1
        omega
      · rcases hmatched with ⟨⟨h35,-⟩,-⟩ | ⟨h25,-⟩
        · exact absurd h35 (by decide)
        · exact absurd h25 (by decide)
  rw [hushCheckcommission_fst hp _ _ _ _ hreward,if_pos hne,if_neg hnot,ite_self]

/-- A mined commission is valid exactly when nothing rewrites the script between the copy of
the miner and the copy of the check. -/
theorem minedCommission_iff (a : CommissionArgs) (before between : List Call)
    (env env' : Surroundings) (t : BlockTemplate) (height : Nat) (coinbase : List CTxOut)
    (hreward : a.COMMISSION≠0 ∨ a.FOUNDERS_REWARD≠0) (hheight : 1 < height)
    (hmined : (a.createNewBlock (a.after a.init before) env t height).1=some coinbase) :
    Honored (a.hushCheckcommission
        (a.after a.init (before++.mine env t height::between)) env' (coinbase::t.vtx) height).1
        (a.templateCommission t height) coinbase ↔
      (a.templateCommission t height≠0 →
        Sound a (a.after a.init before) env t height between) := by
  have hstart : a.init.cache.Valid a.eras := after_valid a.eras []
  obtain ⟨hp,hhex,-⟩ := after_spec before hstart a.script_hex
  have hrun : a.after a.init (before++.mine env t height::between)=
      a.after (a.after a.init before) (.mine env t height::between) := List.foldl_append
  have hmatched := matched_after_iff hp hhex height (.mine env t height::between)
  obtain ⟨hcache,-,-⟩ := after_spec (.mine env t height::between) hp hhex
  rw [hrun]
  rw [createNewBlock_fst hp] at hmined
  by_cases hzero : a.templateCommission t height=0
  · rw [if_neg (fun h => h.2.2.2 hzero)] at hmined
    have hnone := (commissionOf_plain hmined).1.trans hzero
    have hlow : ¬((0 : BitVec 64).toInt≥10000 ∧ coinbase.length<2) :=
      fun h => absurd h.1 (by decide)
    rw [hushCheckcommission_fst hcache _ _ _ _ hreward,hnone,if_neg hlow,if_neg (fun h => h rfl)]
    exact ⟨fun _ h => absurd hzero h,fun _ => ⟨le_rfl,(if_neg (fun h => h hzero)).symm⟩⟩
  · by_cases hpayable : a.OVERRIDE_PUBKEY33.getD 0 0≠0 ∨
        (a.devtaxScriptpubForHeight (a.after a.init before).SCRIPTPUB height).length>1
    · rw [if_pos ⟨hheight,hpayable,hreward,hzero⟩] at hmined
      obtain rfl := Option.some.inj hmined
      have hcheck := check_paid hcache env' hreward (commissionOf_paid a _
        ⟨a.templateCommission t height,a.payScript (a.devtaxScriptpubForHeight
          (a.after a.init before).SCRIPTPUB height)⟩ t.view t.vtx height) hzero
      rw [hcheck,Honored,if_pos hzero]
      constructor
      · rintro ⟨hpos,-⟩ -
        split_ifs at hpos with hpaid
        · obtain ⟨hfits,hkept⟩ := hmatched.mp hpaid
          exact ⟨hpayable,(toInt_nonneg_iff _).mp hpos,hfits,hkept⟩
        · exact absurd hpos (by decide)
      · intro hsound
        obtain ⟨-,hamount,hfits,hkept⟩ := hsound hzero
        rw [if_pos (hmatched.mpr ⟨hfits,hkept⟩)]
        exact ⟨(toInt_nonneg_iff _).mpr hamount,rfl⟩
    · rw [if_neg (fun h => hpayable h.2.1)] at hmined
      obtain ⟨hvalue,hunpaid⟩ := commissionOf_plain hmined
      rw [check_unpaid hcache env' hreward (by rw [hvalue]; exact hzero) (hunpaid hzero)]
      exact ⟨fun h => absurd h.1 (by decide),fun h => absurd (h hzero).payable hpayable⟩

/-- A chain with one founder, half a coin for each block and a script of 25 bytes. -/
def scriptArgs (SCRIPTPUB : List Byte) (hhex : IsHex SCRIPTPUB) (hlong : SCRIPTPUB.length>1) :
    CommissionArgs where
  eras := {singleNotary.eras with REWARD := fun _ => 100000000}
  ASSETCHAINS_NOTARY_PAY _ := 0
  hushNotaries _ _ := []
  getTransaction _ := none
  parser := zdeexEnv
  notaries_le _ _ := by decide
  notaries_33 _ _ := fun _ h => absurd h List.not_mem_nil
  istush3 := false
  FOUNDERS := 1
  FOUNDERS_REWARD := 0
  COMMISSION := 50000000
  OVERRIDE_PUBKEY33 := List.replicate 33 0
  OVERRIDE_PUBKEYHASH := List.replicate 20 0
  SCRIPTPUB := SCRIPTPUB
  EARLYTXID := 1
  TIMELOCKGTE := 0xffffffffffffffff
  unstaked := rfl
  pubkey33_length := rfl
  script_hex := hhex
  accepted := .inl ⟨.inr hlong,rfl⟩

/-- A script whose digits end in `31`. -/
def markedArgs : CommissionArgs := scriptArgs (hexStr (List.replicate 24 0x11++[0x31]))
  (isHex_hexStr _) (by rw [length_hexStr]; decide)

def emptyTemplate : BlockTemplate := ⟨0,[],0,[],false,[],minerView,freshLocals⟩

def earlyData : Surroundings := ⟨fun _ => 0,false,some [0xac]⟩

/-- The coinbase of the template for a script. -/
def markedCoinbase (script : List Byte) : List CTxOut :=
  ⟨100000000,[]⟩::⟨50000000,script⟩::minerView.cbopret

/-- The second block goes to the script with the data of the early transaction. -/
theorem secondCommission_honored :
    Honored (markedArgs.hushCheckcommission (markedArgs.after markedArgs.init
        [.mine earlyData emptyTemplate 101,.mine earlyData emptyTemplate 102]) earlyData
        [markedCoinbase (List.replicate 24 0x11++[0xac])] 102).1
      (markedArgs.templateCommission emptyTemplate 102)
      (markedCoinbase (List.replicate 24 0x11++[0xac])) := by
  refine (minedCommission_iff markedArgs [.mine earlyData emptyTemplate 101] [] earlyData earlyData
    emptyTemplate 102 _ (.inl (by decide)) (by decide) (by decide +kernel)).mpr fun _ => ?_
  refine ⟨.inr (by decide +kernel),by decide +kernel,by decide +kernel,.inr ⟨?_,trivial⟩⟩
  rintro ⟨data,⟨hfresh,-⟩,-⟩
  exact absurd hfresh (by decide +kernel)

/-- The first block goes to the script that its own mining replaces. -/
theorem firstCommission_rejected :
    (markedArgs.createNewBlock markedArgs.init earlyData emptyTemplate 101).1=
        some (markedCoinbase (List.replicate 24 0x11++[0x31])) ∧
      (markedArgs.hushCheckcommission (markedArgs.after markedArgs.init
        [.mine earlyData emptyTemplate 101]) earlyData
        [markedCoinbase (List.replicate 24 0x11++[0x31])] 101).1=-1 ∧
      ¬Honored (markedArgs.hushCheckcommission (markedArgs.after markedArgs.init
          [.mine earlyData emptyTemplate 101]) earlyData
          [markedCoinbase (List.replicate 24 0x11++[0x31])] 101).1
        (markedArgs.templateCommission emptyTemplate 101)
        (markedCoinbase (List.replicate 24 0x11++[0x31])) := by
  have hresult : (markedArgs.hushCheckcommission (markedArgs.after markedArgs.init
      [.mine earlyData emptyTemplate 101]) earlyData
      [markedCoinbase (List.replicate 24 0x11++[0x31])] 101).1=-1 := by decide +kernel
  refine ⟨by decide +kernel,hresult,fun h => ?_⟩
  rw [hresult] at h
  exact absurd h.1 (by decide)

end Mined

end Zdeex.Emission
