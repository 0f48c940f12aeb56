import Zdeex.Script.Blocks
import Zdeex.Script.SigOps

namespace Zdeex.Script

def OP_DUP : Nat := 0x76
def OP_EQUALVERIFY : Nat := 0x88
def OP_SMALLDATA : Nat := 0xf9
def OP_SMALLINTEGER : Nat := 0xfa
def OP_PUBKEYS : Nat := 0xfb
def OP_PUBKEYHASH : Nat := 0xfd
def OP_PUBKEY : Nat := 0xfe

inductive TxNOutType
  | TX_PUBKEY | TX_PUBKEYHASH | TX_SCRIPTHASH | TX_MULTISIG | TX_NULL_DATA | TX_CRYPTOCONDITION
deriving DecidableEq

/-- What `Solver` takes from the options of the node, and from the crypto-conditions: the
solutions of a script that they may accept. -/
structure SolverRules where
  isCryptoConditionsEnabled : Bool
  datacarrier : Bool
  nMaxDatacarrierBytes : Nat
  cryptoConditionSolutions : List UInt8 → Option (List Valtype)

section Solver

variable (R : SolverRules)

/-- The templates, in the order of their types. -/
def mTemplates : List (TxNOutType × List Nat) :=
  [(.TX_PUBKEY,[OP_PUBKEY,OP_CHECKSIG]),
    (.TX_PUBKEYHASH,[OP_DUP,OP_HASH160,OP_PUBKEYHASH,OP_EQUALVERIFY,OP_CHECKSIG]),
    (.TX_MULTISIG,[OP_SMALLINTEGER,OP_PUBKEYS,OP_SMALLINTEGER,OP_CHECKMULTISIG])]++
  (if R.datacarrier then [(.TX_NULL_DATA,[OP_RETURN,OP_SMALLDATA])] else [])++
  [(.TX_NULL_DATA,[OP_RETURN])]

def Instr.isSmallInteger (i : Instr) : Bool :=
  i.opcode=OP_0 || (OP_1 ≤ i.opcode && i.opcode≤OP_16)

def Instr.isPubKey (i : Instr) : Bool :=
  33 ≤ i.vchPushValue.length && i.vchPushValue.length≤65

/-- One opcode of a template against one of the script: what is added to `vSolutionsRet`. -/
def matchOne (opcode2 : Nat) (i : Instr) : Option (List Valtype) :=
  if opcode2=OP_PUBKEY then
    if i.isPubKey then some [i.vchPushValue] else none
  else if opcode2=OP_PUBKEYHASH then
    if i.vchPushValue.length=20 then some [i.vchPushValue] else none
  else if opcode2=OP_SMALLINTEGER then
    if i.isSmallInteger then some [[UInt8.ofNat (decodeOP_N i.opcode)]] else none
  else if opcode2=OP_SMALLDATA then
    if R.nMaxDatacarrierBytes < i.vchPushValue.length then none else some []
  else if i.opcode=opcode2 ∧ i.vchPushValue=[] then some [] else none

/-- The loop for `OP_PUBKEYS`: the keys, and the script behind them. -/
def takePubKeys : List (Option Instr) → List Valtype × List (Option Instr)
  | some i::is =>
    if i.isPubKey then (i.vchPushValue::(takePubKeys is).1,(takePubKeys is).2) else ([],some i::is)
  | is => ([],is)

/-- The comparison with a template. Behind the keys it goes on with the next opcode of both. -/
def matchTemplate : List Nat → List (Option Instr) → Option (List Valtype)
  | [],is => if is=[] then some [] else none
  | opcode2::template,is =>
    if opcode2=OP_PUBKEYS then
      (matchTemplate template (takePubKeys is).2).map fun rest => (takePubKeys is).1++rest
    else
      match is with
      | some i::is => do
        let solved ← matchOne R opcode2 i
        let rest ← matchTemplate template is
        return solved++rest
      | _ => none

/-- The additional checks for `TX_MULTISIG`. -/
def multisigOk (vSolutions : List Valtype) : Bool :=
  let m := ((vSolutions.headD []).headD 0).toNat
  let n := ((vSolutions.getLastD []).headD 0).toNat
  !(m<1 || n<1 || n < m || vSolutions.length-2≠n)

def scanTemplates (is : List (Option Instr)) :
    List (TxNOutType × List Nat) → Option (TxNOutType × List Valtype)
  | [] => none
  | (type,template)::templates =>
    match matchTemplate R template is with
    | none => scanTemplates is templates
    | some vSolutions =>
      if type=.TX_MULTISIG ∧ multisigOk vSolutions=false then none else some (type,vSolutions)

def solver (scriptPubKey : List UInt8) : Option (TxNOutType × List Valtype) :=
  if isPayToScriptHash scriptPubKey then some (.TX_SCRIPTHASH,[(scriptPubKey.drop 2).take 20])
  else if R.isCryptoConditionsEnabled && isPayToCryptoCondition scriptPubKey then
    (R.cryptoConditionSolutions scriptPubKey).map fun vSolutions =>
      (.TX_CRYPTOCONDITION,vSolutions)
  else scanTemplates R (readOps scriptPubKey) (mTemplates R)

end Solver

section Shapes

variable {R : SolverRules} {script : List UInt8} {is : List (Option Instr)}
  {vSolutions : List Valtype} {t : TxNOutType}

/-- The instructions of a script of each type. -/
inductive Solved : TxNOutType → List Valtype → List Instr → Prop
  | pubKey {key : Instr} : key.isPubKey=true →
      Solved .TX_PUBKEY [key.vchPushValue] [key,bare OP_CHECKSIG]
  | pubKeyHash {keyHash : Instr} : keyHash.vchPushValue.length=20 →
      Solved .TX_PUBKEYHASH [keyHash.vchPushValue]
        [bare OP_DUP,bare OP_HASH160,keyHash,bare OP_EQUALVERIFY,bare OP_CHECKSIG]
  | scriptHash {scriptHash : Instr} : scriptHash.vchPushValue.length=20 →
      Solved .TX_SCRIPTHASH [scriptHash.vchPushValue]
        [bare OP_HASH160,scriptHash,bare OP_EQUAL]
  | multisig {m n : Instr} {keys : List Instr} : (∀key∈keys,key.isPubKey=true) →
      m.isSmallInteger=true → n.isSmallInteger=true →
      1≤decodeOP_N m.opcode → decodeOP_N m.opcode≤keys.length →
      decodeOP_N n.opcode=keys.length →
      Solved .TX_MULTISIG ([UInt8.ofNat (decodeOP_N m.opcode)]::
          (keys.map Instr.vchPushValue++[[UInt8.ofNat keys.length]]))
        (m::(keys++[n,bare OP_CHECKMULTISIG]))
  | nullData {rest : List Instr} : Solved .TX_NULL_DATA [] (bare OP_RETURN::rest)

theorem matchTemplate_nil :
    matchTemplate R [] is=some vSolutions ↔ is=[] ∧ vSolutions=[] := by
  rw [matchTemplate]
  by_cases his : is=[] <;> simp [his,eq_comm]

theorem matchTemplate_cons {opcode2 : Nat} {template : List Nat} (hne : opcode2≠OP_PUBKEYS)
    (h : matchTemplate R (opcode2::template) is=some vSolutions) :
    ∃i is' solved rest,is=some i::is' ∧ matchOne R opcode2 i=some solved ∧
      matchTemplate R template is'=some rest ∧ vSolutions=solved++rest := by
  unfold matchTemplate at h
  rw [if_neg hne] at h
  split at h
  · obtain ⟨solved,hsolved,h⟩ := Option.bind_eq_some_iff.mp h
    obtain ⟨rest,hrest,h⟩ := Option.bind_eq_some_iff.mp h
    exact ⟨_,_,solved,rest,rfl,hsolved,hrest,(Option.some.inj h).symm⟩
  · cases h

theorem takePubKeys_eq (is : List (Option Instr)) : ∃keys : List Instr,
    is=keys.map some++(takePubKeys is).2 ∧ (takePubKeys is).1=keys.map Instr.vchPushValue ∧
      ∀key∈keys,key.isPubKey=true := by
  induction is with
  | nil => exact ⟨[],rfl,rfl,by simp⟩
  | cons i is ih =>
    cases i with
    | none => exact ⟨[],rfl,rfl,by simp⟩
    | some i =>
      rw [takePubKeys]
      by_cases hkey : i.isPubKey=true
      · obtain ⟨keys,his,hkeys,hall⟩ := ih
        rw [if_pos hkey]
        refine ⟨i::keys,?_,?_,List.forall_mem_cons.mpr ⟨hkey,hall⟩⟩
        · rw [List.map_cons,List.cons_append,← his]
        · rw [List.map_cons,← hkeys]
      · rw [if_neg hkey]
        exact ⟨[],rfl,rfl,by simp⟩

theorem matchTemplate_pubKeys {template : List Nat}
    (h : matchTemplate R (OP_PUBKEYS::template) is=some vSolutions) :
    ∃(keys : List Instr) (left : List (Option Instr)) (rest : List Valtype),
      is=keys.map some++left ∧ (∀key∈keys,key.isPubKey=true) ∧
      matchTemplate R template left=some rest ∧ vSolutions=keys.map Instr.vchPushValue++rest := by
  obtain ⟨keys,his,hkeys,hall⟩ := takePubKeys_eq is
  unfold matchTemplate at h
  rw [if_pos rfl] at h
  obtain ⟨rest,hrest,rfl⟩ := Option.map_eq_some_iff.mp h
  exact ⟨keys,_,rest,his,hall,hrest,by rw [hkeys]⟩

/-- An opcode that stands for itself. -/
theorem matchOne_bare {opcode2 : Nat} {i : Instr} {solved : List Valtype}
    (hlt : opcode2<OP_SMALLDATA) (h : matchOne R opcode2 i=some solved) :
    i=bare opcode2 ∧ solved=[] := by
  have hcodes : OP_SMALLDATA=0xf9 ∧ OP_SMALLINTEGER=0xfa ∧ OP_PUBKEYHASH=0xfd ∧ OP_PUBKEY=0xfe :=
    ⟨rfl,rfl,rfl,rfl⟩
  rw [matchOne,if_neg (by omega),if_neg (by omega),if_neg (by omega),if_neg (by omega)] at h
  split at h
  · rename_i hsame
    obtain ⟨rfl,hnil⟩ := hsame
    cases i
    exact ⟨congrArg _ hnil,(Option.some.inj h).symm⟩
  · cases h

theorem matchOne_smallInteger {i : Instr} {solved : List Valtype}
    (h : matchOne R OP_SMALLINTEGER i=some solved) :
    i.isSmallInteger=true ∧ solved=[[UInt8.ofNat (decodeOP_N i.opcode)]] := by
  rw [matchOne,if_neg (by decide),if_neg (by decide),if_pos rfl] at h
  split at h
  · exact ⟨‹_›,(Option.some.inj h).symm⟩
  · cases h

theorem solved_pubKey (h : matchTemplate R [OP_PUBKEY,OP_CHECKSIG] is=some vSolutions) :
    ∃js : List Instr,is=js.map some ∧ Solved .TX_PUBKEY vSolutions js := by
  obtain ⟨key,is,s₁,r₁,rfl,hkey,h₁,rfl⟩ := matchTemplate_cons (by decide) h
  obtain ⟨i,is,s₂,r₂,rfl,hsig,h₂,rfl⟩ := matchTemplate_cons (by decide) h₁
  obtain ⟨rfl,rfl⟩ := matchOne_bare (by decide) hsig
  obtain ⟨rfl,rfl⟩ := matchTemplate_nil.mp h₂
  rw [matchOne,if_pos rfl] at hkey
  split at hkey
  · rename_i hlen
    obtain rfl := Option.some.inj hkey
    exact ⟨[key,bare OP_CHECKSIG],rfl,.pubKey hlen⟩
  · cases hkey

theorem solved_pubKeyHash
    (h : matchTemplate R [OP_DUP,OP_HASH160,OP_PUBKEYHASH,OP_EQUALVERIFY,OP_CHECKSIG] is=
      some vSolutions) :
    ∃js : List Instr,is=js.map some ∧ Solved .TX_PUBKEYHASH vSolutions js := by
  obtain ⟨i,is,s₁,r₁,rfl,hdup,h₁,rfl⟩ := matchTemplate_cons (by decide) h
  obtain ⟨rfl,rfl⟩ := matchOne_bare (by decide) hdup
  obtain ⟨i,is,s₂,r₂,rfl,hhash,h₂,rfl⟩ := matchTemplate_cons (by decide) h₁
  obtain ⟨rfl,rfl⟩ := matchOne_bare (by decide) hhash
  obtain ⟨keyHash,is,s₃,r₃,rfl,hkey,h₃,rfl⟩ := matchTemplate_cons (by decide) h₂
  obtain ⟨i,is,s₄,r₄,rfl,hequal,h₄,rfl⟩ := matchTemplate_cons (by decide) h₃
  obtain ⟨rfl,rfl⟩ := matchOne_bare (by decide) hequal
  obtain ⟨i,is,s₅,r₅,rfl,hsig,h₅,rfl⟩ := matchTemplate_cons (by decide) h₄
  obtain ⟨rfl,rfl⟩ := matchOne_bare (by decide) hsig
  obtain ⟨rfl,rfl⟩ := matchTemplate_nil.mp h₅
  rw [matchOne,if_neg (by decide),if_pos rfl] at hkey
  split at hkey
  · rename_i hlen
    obtain rfl := Option.some.inj hkey
    exact ⟨[bare OP_DUP,bare OP_HASH160,keyHash,bare OP_EQUALVERIFY,bare OP_CHECKSIG],rfl,
      .pubKeyHash hlen⟩
  · cases hkey

theorem decodeOP_N_le {i : Instr} (h : i.isSmallInteger=true) : decodeOP_N i.opcode≤16 := by
  have hcodes : OP_1=81 ∧ OP_16=96 := ⟨rfl,rfl⟩
  rw [decodeOP_N]
  split
  · omega
  · rename_i hne
    simp only [Instr.isSmallInteger,hne,decide_false,Bool.false_or,Bool.and_eq_true,
      decide_eq_true_eq] at h
    omega

theorem multisigOk_iff {m n : Nat} {keys : List Valtype} (hm : m<256) (hn : n<256) :
    multisigOk ([UInt8.ofNat m]::(keys++[[UInt8.ofNat n]]))=true ↔
      1 ≤ m ∧ 1≤n ∧ m≤n ∧ keys.length=n := by
  have hmByte : (UInt8.ofNat m).toNat=m := UInt8.toNat_ofNat_of_lt' hm
  have hnByte : (UInt8.ofNat n).toNat=n := UInt8.toNat_ofNat_of_lt' hn
  have hlast : ([UInt8.ofNat m]::(keys++[[UInt8.ofNat n]])).getLastD []=[UInt8.ofNat n] := by
    rw [← List.cons_append,List.getLastD_concat]
  rw [multisigOk,hlast,List.headD_cons,List.headD_cons,List.headD_cons,hmByte,hnByte]
  simp only [Bool.not_eq_true',Bool.or_eq_false_iff,decide_eq_false_iff_not,List.length_cons,
    List.length_append,List.length_nil]
  omega

theorem solved_multisig
    (h : matchTemplate R [OP_SMALLINTEGER,OP_PUBKEYS,OP_SMALLINTEGER,OP_CHECKMULTISIG] is=
      some vSolutions) (hok : multisigOk vSolutions=true) :
    ∃js : List Instr,is=js.map some ∧ Solved .TX_MULTISIG vSolutions js := by
  obtain ⟨m,is,s₁,r₁,rfl,hm,h₁,rfl⟩ := matchTemplate_cons (by decide) h
  obtain ⟨hmSmall,rfl⟩ := matchOne_smallInteger hm
  obtain ⟨keys,is,r₂,rfl,hkeys,h₂,rfl⟩ := matchTemplate_pubKeys h₁
  obtain ⟨n,is,s₃,r₃,rfl,hn,h₃,rfl⟩ := matchTemplate_cons (by decide) h₂
  obtain ⟨hnSmall,rfl⟩ := matchOne_smallInteger hn
  obtain ⟨i,is,s₄,r₄,rfl,hcheck,h₄,rfl⟩ := matchTemplate_cons (by decide) h₃
  obtain ⟨rfl,rfl⟩ := matchOne_bare (by decide) hcheck
  obtain ⟨rfl,rfl⟩ := matchTemplate_nil.mp h₄
  have hm16 := decodeOP_N_le hmSmall
  have hn16 := decodeOP_N_le hnSmall
  have hsols : [[UInt8.ofNat (decodeOP_N m.opcode)]]++(keys.map Instr.vchPushValue++
      ([[UInt8.ofNat (decodeOP_N n.opcode)]]++([]++[])))=
      [UInt8.ofNat (decodeOP_N m.opcode)]::(keys.map Instr.vchPushValue++
        [[UInt8.ofNat (decodeOP_N n.opcode)]]) := rfl
  rw [hsols,multisigOk_iff (by omega) (by omega),List.length_map] at hok
  obtain ⟨hm1,-,hmn,hlen⟩ := hok
  refine ⟨m::(keys++[n,bare OP_CHECKMULTISIG]),by simp,?_⟩
  rw [hsols,← hlen]
  exact .multisig hkeys hmSmall hnSmall hm1 (by omega) hlen.symm

theorem readOps_scriptHash (h : isPayToScriptHash script=true) :
    readOps script=[some (bare OP_HASH160),some ⟨0x14,(script.drop 2).take 20⟩,
      some (bare OP_EQUAL)] ∧ ((script.drop 2).take 20).length=20 := by
  simp only [isPayToScriptHash,Bool.and_eq_true,decide_eq_true_eq] at h
  obtain ⟨⟨⟨hlen,h0⟩,h1⟩,h22⟩ := h
  rcases script with _ | ⟨a,_ | ⟨b,rest⟩⟩
  · cases hlen
  · cases hlen
  · obtain rfl : a=0xa9 := h0
    obtain rfl : b=0x14 := h1
    simp only [List.length_cons] at hlen
    have hdrop : rest.drop 20=[0x87] := by
      have hone : (rest.drop 20).length=1 := by rw [List.length_drop]; omega
      obtain ⟨c,hc⟩ := List.length_eq_one_iff.mp hone
      have hget : rest.getD 20 0=c := by
        rw [List.getD_eq_getElem?_getD,← List.head?_drop,hc]
        rfl
      have h20 : rest.getD 20 0=0x87 := h22
      rw [hc,← hget,h20]
    have htake : (rest.take 20).length=20 := by rw [List.length_take]; omega
    have hop : getOp (0x14::rest)=some (0x14,rest.take 20,[0x87]) := by
      rw [getOp_eq_some]
      refine ⟨rfl,?_⟩
      rw [if_pos (by decide)]
      refine ⟨[],?_,?_⟩
      · rw [List.nil_append,← hdrop,List.take_append_drop]
      · rw [htake]
        exact ⟨rfl,rfl⟩
    have hfirst : getOp (0xa9::0x14::rest)=some (OP_HASH160,[],0x14::rest) := rfl
    refine ⟨?_,htake⟩
    rw [readOps_some hfirst,readOps_some hop]
    rfl

theorem scanTemplates_some {templates : List (TxNOutType × List Nat)}
    (h : scanTemplates R is templates=some (t,vSolutions)) :
    ∃template,(t,template)∈templates ∧ matchTemplate R template is=some vSolutions ∧
      (t=.TX_MULTISIG → multisigOk vSolutions=true) := by
  induction templates with
  | nil => cases h
  | cons p templates ih =>
    obtain ⟨type,template⟩ := p
    rw [scanTemplates] at h
    cases hmatch : matchTemplate R template is with
    | none =>
      simp only [hmatch] at h
      obtain ⟨template',hmem,hrest⟩ := ih h
      exact ⟨template',List.mem_cons_of_mem _ hmem,hrest⟩
    | some found =>
      simp only [hmatch] at h
      split at h
      · cases h
      · rename_i hok
        obtain ⟨rfl,rfl⟩ := Prod.mk.inj (Option.some.inj h)
        refine ⟨template,List.mem_cons_self,hmatch,fun hmultisig => ?_⟩
        by_contra hnot
        exact hok ⟨hmultisig,Bool.not_eq_true _▸hnot⟩

/-- The script of an output of a standard type. -/
theorem solver_solved (h : solver R script=some (t,vSolutions)) (hcc : t≠.TX_CRYPTOCONDITION) :
    ∃js : List Instr,readOps script=js.map some ∧ Solved t vSolutions js := by
  rw [solver] at h
  split at h
  · rename_i hhash
    obtain ⟨rfl,rfl⟩ := Prod.mk.inj (Option.some.inj h)
    obtain ⟨hread,hlen⟩ := readOps_scriptHash hhash
    let keyHash : Instr := ⟨0x14,(script.drop 2).take 20⟩
    exact ⟨[bare OP_HASH160,keyHash,bare OP_EQUAL],hread,@Solved.scriptHash keyHash hlen⟩
  split at h
  · obtain ⟨sols,-,hpair⟩ := Option.map_eq_some_iff.mp h
    exact absurd (Prod.mk.inj hpair).1.symm hcc
  · obtain ⟨template,hmem,hmatch,hok⟩ := scanTemplates_some h
    simp only [mTemplates,List.mem_append,List.mem_cons,Prod.mk.injEq,List.not_mem_nil,
      or_false] at hmem
    rcases hmem with ((⟨rfl,rfl⟩ | ⟨rfl,rfl⟩ | ⟨rfl,rfl⟩) | hdata) | ⟨rfl,rfl⟩
    · exact solved_pubKey hmatch
    · exact solved_pubKeyHash hmatch
    · exact solved_multisig hmatch (hok rfl)
    · split at hdata
      · simp only [List.mem_singleton,Prod.mk.injEq] at hdata
        obtain ⟨rfl,rfl⟩ := hdata
        obtain ⟨i,is,s₁,r₁,his,hret,h₁,rfl⟩ := matchTemplate_cons (by decide) hmatch
        obtain ⟨rfl,rfl⟩ := matchOne_bare (by decide) hret
        obtain ⟨i,is',s₂,r₂,rfl,hsmall,h₂,rfl⟩ := matchTemplate_cons (by decide) h₁
        obtain ⟨rfl,rfl⟩ := matchTemplate_nil.mp h₂
        rw [matchOne,if_neg (by decide),if_neg (by decide),if_neg (by decide),if_pos rfl] at hsmall
        split at hsmall
        · cases hsmall
        · obtain rfl := Option.some.inj hsmall
          exact ⟨[bare OP_RETURN,i],his,.nullData⟩
      · cases hdata
    · obtain ⟨i,is,s₁,r₁,his,hret,h₁,rfl⟩ := matchTemplate_cons (by decide) hmatch
      obtain ⟨rfl,rfl⟩ := matchOne_bare (by decide) hret
      obtain ⟨rfl,rfl⟩ := matchTemplate_nil.mp h₁
      exact ⟨[bare OP_RETURN],his,.nullData⟩

end Shapes

end Zdeex.Script
