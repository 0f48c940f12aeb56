import Mathlib.Data.BitVec
import Mathlib.Data.List.Nodup
import Zdeex.Emission.ScSubsidy
import Zdeex.Notary.VoutUpdate
import Zdeex.Primitives.TransactionFormat

namespace Zdeex.Notary

open Zdeex.Framework Zdeex.Wire

section Definitions

/-- The arguments of a chain that pays its notaries, the keys of `hush_notaries`, where -1
is the empty list, and the transactions that `GetTransaction` finds. -/
structure PayChain where
  eras : Emission.EraArgs
  ASSETCHAINS_NOTARY_PAY : Nat → BitVec 64
  hushNotaries : Int32 → BitVec 32 → List (List Byte)
  getTransaction : Uint256 → Option CTransaction
  parser : VoutEnv
  notaries_le : ∀height timestamp,(hushNotaries height timestamp).length≤64
  notaries_33 : ∀height timestamp,∀key∈hushNotaries height timestamp,key.length=33

/-- What the locals of `hush_getnotarizedheight` hold before they are written. -/
structure PayLocals where
  scriptbuf : Nat → Byte
  vars : VoutVars

/-- A read outside of `NotarizationNotaries`, of the outputs of a spent transaction or of
a script, or the height of a null block index. -/
inductive PayFault
  | notaries
  | prevout
  | script
  | blockIndex
  deriving DecidableEq

def OP_CHECKSIG : Byte := 0xac

/-- `CTxOut()`. -/
def nullOut : CTxOut := ⟨-1,[]⟩

/-- The test that the miner, the check and the list of signers all make. -/
def payToPubkey (script : List Byte) : Prop :=
  script.length=35 ∧ script.getD 0 0=33 ∧ script.getD 34 0=OP_CHECKSIG

instance (script : List Byte) : Decidable (payToPubkey script) :=
  inferInstanceAs (Decidable (_ ∧ _))

def pubkeyOf (script : List Byte) : List Byte := (script.drop 1).take 33

/-- `notarypubkeys[0][0] == 0`. -/
def noNotaries : List (List Byte) → Bool
  | [] => true
  | key::_ => key.getD 0 0==0

/-- The output that `hush_notarypay` writes for a notary. -/
def payTo (notarypubkeys : List (List Byte)) (AmountToPay : BitVec 64) (notary : Nat) :
    CTxOut := ⟨AmountToPay,33::(notarypubkeys.getD notary []++[OP_CHECKSIG])⟩

/-- The notaries to whom an output pays. -/
def notariesOf (notarypubkeys : List (List Byte)) (script : List Byte) : List Nat :=
  if payToPubkey script then
    (List.range notarypubkeys.length).filter fun i => pubkeyOf script==notarypubkeys.getD i []
  else []

variable (c : PayChain)

/-- The era in which the notaries are paid. -/
def PayChain.payEra (nHeight : Int32) : Nat :=
  if (c.eras.ENDSUBSIDY 0).toNat>1 then
    c.eras.searchEra (nHeight.signExtend 64).toNat (c.eras.LASTERA+1) 0
  else 0

def PayChain.hushNotarypayamount (nHeight : Int32) (notarycount : Nat) : BitVec 64 :=
  if c.payEra nHeight > c.eras.LASTERA then 0
  else if notarycount=0 then 0
  else c.ASSETCHAINS_NOTARY_PAY (c.payEra nHeight)/BitVec.ofNat 64 notarycount

/-- The arguments that `hush_getnotarizedheight` passes. -/
def checkArgs (timestamp : BitVec 32) (height : Int32) : VoutArgs :=
  ⟨true,height,0,1,1,0,true,0,timestamp⟩

def PayChain.hushGetnotarizedheight (u : PayLocals) (timestamp : BitVec 32) (height : Int32)
    (script : List Byte) : Except PayFault Int32 :=
  if 4 ≤ script.length ∧ script.length≤DRAGON_MAXSCRIPTSIZE then
    match Probe.run (Probe.overlay script u.scriptbuf) (hushVoutupdate c.parser
        (checkArgs timestamp height) script.length 0 u.vars) with
    | none => .error .script
    | some none => .error .blockIndex
    | some (some r) => .ok (if r.ret=-2 then r.vars.notarizedheight else 0)
  else .ok 0

/-- `vector::resize`. -/
def resized (vout : List CTxOut) (n : Nat) : List CTxOut :=
  vout.take n++List.replicate (n-vout.length) nullOut

/-- The total and the outputs after the call. The counter of the loop is an `int8_t`, so
that it ends behind 128 notaries. -/
def PayChain.hushNotarypay (u : PayLocals) (vout : List CTxOut)
    (NotarizationNotaries : List Nat) (timestamp : BitVec 32) (height : Int32)
    (script : List Byte) : Except PayFault (BitVec 64 × List CTxOut) :=
  let notarypubkeys := c.hushNotaries height timestamp
  if noNotaries notarypubkeys then return (0,vout)
  else do
    let notarizedheight ← c.hushGetnotarizedheight u timestamp height script
    if notarizedheight=0 then return (0,vout)
    else
      let vout := resized vout (NotarizationNotaries.length+1)
      let AmountToPay := c.hushNotarypayamount height NotarizationNotaries.length
      if AmountToPay=0 then return (0,vout)
      else
        let paid := (NotarizationNotaries.take 128).map (payTo notarypubkeys AmountToPay)
        return ((paid.map CTxOut.nValue).sum,vout.take 1++paid++vout.drop (1+paid.length))

/-- The loop over the inputs; `none` is the result false. -/
def PayChain.gatherNotaries (notarypubkeys : List (List Byte)) :
    List CTxIn → Except PayFault (Option (List Nat))
  | [] => .ok (some [])
  | txin::vin =>
      match c.getTransaction txin.prevout.hash with
      | none => .ok none
      | some tx1 =>
          match tx1.vout[txin.prevout.n.toNat]? with
          | none => .error .prevout
          | some out => do
              let rest ← PayChain.gatherNotaries notarypubkeys vin
              return rest.map (notariesOf notarypubkeys out.scriptPubKey++·)

def PayChain.getNotarizationNotaries (notarypubkeys : List (List Byte)) (vin : List CTxIn) :
    Except PayFault (Option (List Nat)) :=
  if noNotaries notarypubkeys then .ok none else c.gatherNotaries notarypubkeys vin

/-- What the check reads of a block: its time, its coinbase and the transaction behind it. -/
structure PayBlock where
  nTime : BitVec 32
  coinbase : List CTxOut
  notarization : CTransaction

/-- The OP_RETURN of a notarization. -/
def notarizationScript (tx : CTransaction) : Option (List Byte) :=
  match tx.vout with
  | [_,out] => if out.nValue=0 then some out.scriptPubKey else none
  | _ => none

/-- The loop over the outputs of the coinbase, with the `int8_t` counters `n` and
`matches`. -/
def walkOutputs (notarypubkeys : List (List Byte)) (NotarizationNotaries : List Nat)
    (vout : List CTxOut) (AmountToPay : BitVec 64) : List CTxOut → BitVec 8 → BitVec 8 →
    BitVec 64 → Except PayFault (BitVec 8 × BitVec 64)
  | [],_,found,total => .ok (found,total)
  | txout::rest,n,found,total =>
      if n=0 then walkOutputs notarypubkeys NotarizationNotaries vout AmountToPay rest (n+1)
        found total
      else if payToPubkey txout.scriptPubKey then
        if 0≤n.toInt-1 ∧ n.toInt-1<NotarizationNotaries.length then
          if pubkeyOf txout.scriptPubKey=
              notarypubkeys.getD (NotarizationNotaries.getD (n.toInt-1).toNat 0) [] ∧
              (vout.getD n.toInt.toNat nullOut).nValue=AmountToPay then
            walkOutputs notarypubkeys NotarizationNotaries vout AmountToPay rest (n+1)
              (found+1) (total+txout.nValue)
          else walkOutputs notarypubkeys NotarizationNotaries vout AmountToPay rest (n+1)
            found total
        else .error .notaries
      else walkOutputs notarypubkeys NotarizationNotaries vout AmountToPay rest (n+1)
        found total

/-- What `hush_checknotarypay` needs to look at the outputs: the signers, the total and the
amount of the coinbase that it builds again. -/
structure Rebuilt where
  NotarizationNotaries : List Nat
  totalsats : BitVec 64
  AmountToPay : BitVec 64
  deriving DecidableEq

/-- The check up to its loop; `none` is the result 0. -/
def PayChain.rebuild (u : PayLocals) (pblock : PayBlock) (height : Int32) :
    Except PayFault (Option Rebuilt) := do
  let notaries ← c.getNotarizationNotaries (c.hushNotaries height pblock.nTime)
    pblock.notarization.vin
  match notaries with
  | none => return none
  | some NotarizationNotaries =>
      if ¬NotarizationNotaries.Nodup then return none
      else
        match notarizationScript pblock.notarization with
        | none => return none
        | some [] => throw .script
        | some (op::script) =>
            if op=0x6a then do
              let (totalsats,vout) ← c.hushNotarypay u [] NotarizationNotaries pblock.nTime
                height (op::script)
              if totalsats=0 then return none
              else return some ⟨NotarizationNotaries,totalsats,(vout.getD 1 nullOut).nValue⟩
            else return none

def PayChain.hushChecknotarypay (u : PayLocals) (pblock : PayBlock) (height : Int32) :
    Except PayFault (BitVec 64) := do
  let rebuilt ← c.rebuild u pblock height
  match rebuilt with
  | none => return 0
  | some r =>
      let (found,total) ← walkOutputs (c.hushNotaries height pblock.nTime)
        r.NotarizationNotaries pblock.coinbase r.AmountToPay pblock.coinbase 0 0 0
      if found≠0 ∧ found.toInt=r.NotarizationNotaries.length ∧ r.totalsats=total then
        return r.totalsats
      else return 0

end Definitions

section Walk

variable {notarypubkeys : List (List Byte)} {notaries : List Nat} {vout : List CTxOut}
  {AmountToPay : BitVec 64}

/-- The output at a position pays the notary whose turn it is. -/
def paidAt (notarypubkeys : List (List Byte)) (notaries : List Nat) (AmountToPay : BitVec 64)
    (p : Nat) (out : CTxOut) : Prop :=
  payToPubkey out.scriptPubKey ∧
    pubkeyOf out.scriptPubKey=notarypubkeys.getD (notaries.getD (p-1) 0) [] ∧
    out.nValue=AmountToPay

instance (p : Nat) (out : CTxOut) :
    Decidable (paidAt notarypubkeys notaries AmountToPay p out) :=
  inferInstanceAs (Decidable (_ ∧ _))

/-- How many outputs from a position on pay their notaries. -/
def countPaid (notarypubkeys : List (List Byte)) (notaries : List Nat)
    (AmountToPay : BitVec 64) : Nat → List CTxOut → Nat
  | _,[] => 0
  | p,out::rest =>
      (if paidAt notarypubkeys notaries AmountToPay p out then 1 else 0)+
        countPaid notarypubkeys notaries AmountToPay (p+1) rest

/-- No output behind those of the notaries pays to a public key. -/
def PlainBehind (notaries : List Nat) (vout : List CTxOut) : Prop :=
  ∀q out,notaries.length<q → vout[q]?=some out → ¬payToPubkey out.scriptPubKey

theorem getElem?_of_drop {p : Nat} {out : CTxOut} {rest : List CTxOut}
    (h : vout.drop p=out::rest) : vout[p]?=some out ∧ vout.drop (p+1)=rest := by
  have hlt : p<vout.length := by
    by_contra hge
    rw [List.drop_eq_nil_of_le (by omega)] at h
    cases h
  rw [List.drop_eq_getElem_cons hlt] at h
  obtain ⟨hout,hrest⟩ := List.cons.inj h
  exact ⟨by rw [List.getElem?_eq_getElem hlt,hout],hrest⟩

theorem toInt_position {p : Nat} (h : p<128) : (BitVec.ofNat 8 p).toInt=p := by
  rw [BitVec.toInt_eq_toNat_of_lt]
  · rw [BitVec.toNat_ofNat,Nat.mod_eq_of_lt (by omega)]
  · rw [BitVec.toNat_ofNat]
    omega

/-- Without an output to a public key behind those of the notaries the loop counts what is
paid. -/
theorem walkOutputs_eq (hplain : PlainBehind notaries vout) (hlen : notaries.length≤64)
    (rest : List CTxOut) {p : Nat} (hp : 1≤p) (hrest : vout.drop p=rest) (found : BitVec 8)
    (total : BitVec 64) :
    walkOutputs notarypubkeys notaries vout AmountToPay rest (BitVec.ofNat 8 p) found total=
      .ok (found+BitVec.ofNat 8 (countPaid notarypubkeys notaries AmountToPay p rest),
        total+BitVec.ofNat 64 (countPaid notarypubkeys notaries AmountToPay p rest)*
          AmountToPay) := by
  induction rest generalizing p found total with
  | nil => simp [walkOutputs,countPaid]
  | cons out rest ih =>
    obtain ⟨hout,htail⟩ := getElem?_of_drop hrest
    have hnext : BitVec.ofNat 8 p+1=BitVec.ofNat 8 (p+1) := by
      rw [BitVec.ofNat_add]
      rfl
    rw [walkOutputs,countPaid,hnext]
    by_cases hpay : payToPubkey out.scriptPubKey
    · have hle : p≤notaries.length := by
        by_contra hgt
        exact hplain p out (by omega) hout hpay
      have hint := toInt_position (show p<128 by omega)
      have hne : BitVec.ofNat 8 p≠0 := by
        intro hzero
        rw [hzero] at hint
        change (0 : Int)=p at hint
        omega
      have hin : (0 : Int)≤(p : Int)-1 ∧ (p : Int)-1<notaries.length := by omega
      have hindex : ((p : Int)-1).toNat=p-1 := by omega
      have hvalue : (vout.getD (p : Int).toNat nullOut)=out := by
        simp [List.getD,hout]
      rw [if_neg hne,if_pos hpay,hint,if_pos hin,hindex,hvalue]
      by_cases hpaid : paidAt notarypubkeys notaries AmountToPay p out
      · rw [if_pos hpaid.2,if_pos hpaid,ih (by omega) htail,hpaid.2.2]
        congr 2
        · rw [BitVec.ofNat_add,BitVec.add_assoc]
          rfl
        · rw [BitVec.ofNat_add,BitVec.add_assoc,BitVec.add_mul,BitVec.one_mul]
      · rw [if_neg (fun h => hpaid ⟨hpay,h⟩),if_neg hpaid,ih (by omega) htail,Nat.zero_add]
    · have hnot : ¬paidAt notarypubkeys notaries AmountToPay p out := fun h => hpay h.1
      rw [if_neg hpay,if_neg hnot,ih (by omega) htail,Nat.zero_add,ite_self]

/-- An output to a public key behind those of the notaries is read with an index that the
list does not have. -/
theorem walkOutputs_fault {q : Nat} {out : CTxOut} (hq : vout[q]?=some out)
    (hpay : payToPubkey out.scriptPubKey) (hbehind : notaries.length<q) (hsmall : q<256)
    (rest : List CTxOut) {p : Nat} (hp : 1≤p) (hpq : p≤q) (hrest : vout.drop p=rest)
    (found : BitVec 8) (total : BitVec 64) :
    walkOutputs notarypubkeys notaries vout AmountToPay rest (BitVec.ofNat 8 p) found total=
      .error .notaries := by
  induction rest generalizing p found total with
  | nil =>
    rw [List.drop_eq_nil_iff] at hrest
    rw [List.getElem?_eq_none (by omega)] at hq
    cases hq
  | cons txout rest ih =>
    obtain ⟨hout,htail⟩ := getElem?_of_drop hrest
    have hnext : BitVec.ofNat 8 p+1=BitVec.ofNat 8 (p+1) := by
      rw [BitVec.ofNat_add]
      rfl
    rw [walkOutputs,hnext]
    rcases Nat.eq_or_lt_of_le hpq with rfl | hlt
    · obtain rfl := Option.some.inj (hout.symm.trans hq)
      have hne : BitVec.ofNat 8 p≠0 := by
        intro hzero
        have hnat := congrArg BitVec.toNat hzero
        rw [BitVec.toNat_ofNat] at hnat
        change p%256=0 at hnat
        omega
      have hindex : ¬(0≤(BitVec.ofNat 8 p).toInt-1 ∧
          (BitVec.ofNat 8 p).toInt-1<notaries.length) := by
        rw [BitVec.toInt_eq_toNat_cond,BitVec.toNat_ofNat,Nat.mod_eq_of_lt (by omega)]
        split_ifs <;> omega
      rw [if_neg hne,if_pos hpay,if_neg hindex]
    · have hstep := fun found total => ih (by omega) (by omega) htail found total
      split_ifs
      · exact hstep _ _
      · exact hstep _ _
      · exact hstep _ _
      · rfl
      · exact hstep _ _

theorem countPaid_le (notarypubkeys : List (List Byte)) (AmountToPay : BitVec 64)
    (hplain : PlainBehind notaries vout) (rest : List CTxOut) {p : Nat}
    (hrest : vout.drop p=rest) :
    countPaid notarypubkeys notaries AmountToPay p rest≤notaries.length+1-p := by
  induction rest generalizing p with
  | nil => simp [countPaid]
  | cons out rest ih =>
    obtain ⟨hout,htail⟩ := getElem?_of_drop hrest
    have hle := ih htail
    rw [countPaid]
    split_ifs with hpaid
    · have hin : p≤notaries.length := by
        by_contra hgt
        exact hplain p out (by omega) hout hpaid.1
      omega
    · omega

/-- As many payments as notaries: each is paid. -/
theorem paidAt_of_countPaid (hplain : PlainBehind notaries vout) (rest : List CTxOut)
    {p : Nat} (hrest : vout.drop p=rest)
    (hcount : countPaid notarypubkeys notaries AmountToPay p rest=notaries.length+1-p)
    {q : Nat} (hpq : p≤q) (hq : q≤notaries.length) :
    ∃out,vout[q]?=some out ∧ paidAt notarypubkeys notaries AmountToPay q out := by
  induction rest generalizing p with
  | nil =>
    rw [countPaid] at hcount
    omega
  | cons out rest ih =>
    obtain ⟨hout,htail⟩ := getElem?_of_drop hrest
    have hle := countPaid_le notarypubkeys AmountToPay hplain rest htail
    rw [countPaid] at hcount
    split_ifs at hcount with hpaid
    · rcases Nat.eq_or_lt_of_le hpq with rfl | hlt
      · exact ⟨out,hout,hpaid⟩
      · exact ih htail (by omega) (by omega)
    · omega

/-- Payments to all notaries in order are all found. -/
theorem countPaid_of_paidAt (hplain : PlainBehind notaries vout) (rest : List CTxOut)
    {p : Nat} (hp : 1≤p) (hrest : vout.drop p=rest)
    (hpaid : ∀q,p≤q → q≤notaries.length →
      ∃out,vout[q]?=some out ∧ paidAt notarypubkeys notaries AmountToPay q out) :
    countPaid notarypubkeys notaries AmountToPay p rest=notaries.length+1-p := by
  induction rest generalizing p with
  | nil =>
    rw [List.drop_eq_nil_iff] at hrest
    rw [countPaid]
    by_contra hne
    obtain ⟨out,hout,-⟩ := hpaid p le_rfl (by omega)
    rw [List.getElem?_eq_none (by omega)] at hout
    cases hout
  | cons out rest ih =>
    obtain ⟨hout,htail⟩ := getElem?_of_drop hrest
    have hnext := ih (by omega) htail (fun q hpq hq => hpaid q (by omega) hq)
    rw [countPaid,hnext]
    by_cases hin : p≤notaries.length
    · obtain ⟨out',hout',hpaid'⟩ := hpaid p le_rfl hin
      obtain rfl := Option.some.inj (hout.symm.trans hout')
      rw [if_pos hpaid']
      omega
    · rw [if_neg (fun h => hplain p out (by omega) hout h.1)]
      omega

end Walk

section Amounts

variable {c : PayChain} {u : PayLocals} {height : Int32}

theorem notariesOf_lt {notarypubkeys : List (List Byte)} {script : List Byte} {i : Nat}
    (h : i∈notariesOf notarypubkeys script) : i<notarypubkeys.length := by
  unfold notariesOf at h
  split_ifs at h
  · exact List.mem_range.mp (List.mem_filter.mp h).1
  · cases h

theorem gatherNotaries_lt {notarypubkeys : List (List Byte)} {vin : List CTxIn}
    {notaries : List Nat} (h : c.gatherNotaries notarypubkeys vin=.ok (some notaries)) :
    ∀i∈notaries,i<notarypubkeys.length := by
  induction vin generalizing notaries with
  | nil =>
    cases h
    intro i hi
    cases hi
  | cons txin vin ih =>
    rw [PayChain.gatherNotaries] at h
    cases htx : c.getTransaction txin.prevout.hash with
    | none =>
      rw [htx] at h
      cases h
    | some tx1 =>
      rw [htx] at h
      dsimp only at h
      cases hout : tx1.vout[txin.prevout.n.toNat]? with
      | none =>
        rw [hout] at h
        cases h
      | some out =>
        rw [hout] at h
        cases hrest : c.gatherNotaries notarypubkeys vin with
        | error e =>
          rw [hrest] at h
          cases h
        | ok rest =>
          rw [hrest] at h
          cases rest with
          | none => cases h
          | some rest =>
            cases h
            intro i hi
            rcases List.mem_append.mp hi with hi | hi
            · exact notariesOf_lt hi
            · exact ih hrest i hi

/-- Signers that are all different are at most 64. -/
theorem notaries_length_le {timestamp : BitVec 32} {vin : List CTxIn} {notaries : List Nat}
    (h : c.getNotarizationNotaries (c.hushNotaries height timestamp) vin=.ok (some notaries))
    (hnodup : notaries.Nodup) : notaries.length≤64 := by
  unfold PayChain.getNotarizationNotaries at h
  split_ifs at h
  · cases h
  · have hlt := gatherNotaries_lt h
    have hsub : notaries⊆List.range 64 := by
      intro i hi
      exact List.mem_range.mpr ((hlt i hi).trans_le (c.notaries_le height timestamp))
    exact (hnodup.subperm hsub).length_le.trans_eq List.length_range

theorem sum_payTo (notarypubkeys : List (List Byte)) (AmountToPay : BitVec 64)
    (notaries : List Nat) :
    ((notaries.map (payTo notarypubkeys AmountToPay)).map CTxOut.nValue).sum=
      BitVec.ofNat 64 notaries.length*AmountToPay := by
  induction notaries with
  | nil => simp
  | cons i notaries ih =>
    rw [List.map_cons,List.map_cons,List.sum_cons,ih,List.length_cons,BitVec.ofNat_add,
      BitVec.add_mul,BitVec.one_mul,BitVec.add_comm]
    rfl

theorem resized_length (vout : List CTxOut) (n : Nat) : (resized vout n).length=n := by
  simp [resized]
  omega

/-- The parser finds a height that is not zero in a script. -/
def PayChain.Notarizes (c : PayChain) (u : PayLocals) (timestamp : BitVec 32) (height : Int32)
    (script : List Byte) : Prop :=
  ∃notarizedheight≠0,c.hushGetnotarizedheight u timestamp height script=.ok notarizedheight

/-- The payments of a call that finds keys, a notarization and an amount. -/
theorem hushNotarypay_pays {notaries : List Nat} {timestamp : BitVec 32} {script : List Byte}
    (vout : List CTxOut) (hlen : notaries.length≤64)
    (hkeys : noNotaries (c.hushNotaries height timestamp)=false)
    (hheight : c.Notarizes u timestamp height script)
    (hamount : c.hushNotarypayamount height notaries.length≠0) :
    c.hushNotarypay u vout notaries timestamp height script=
      .ok (BitVec.ofNat 64 notaries.length*c.hushNotarypayamount height notaries.length,
        (resized vout (notaries.length+1)).take 1++notaries.map
          (payTo (c.hushNotaries height timestamp)
            (c.hushNotarypayamount height notaries.length))) := by
  obtain ⟨notarizedheight,hne,hok⟩ := hheight
  unfold PayChain.hushNotarypay
  dsimp only
  rw [hkeys,if_neg Bool.false_ne_true,hok]
  change (if notarizedheight=0 then _ else _)=_
  rw [if_neg hne,if_neg hamount,List.take_of_length_le (by omega),sum_payTo,List.length_map,
    List.drop_eq_nil_of_le (by rw [resized_length]; omega),List.append_nil]
  rfl

/-- A call that pays finds all three. -/
theorem hushNotarypay_ne_zero {vout paid : List CTxOut} {notaries : List Nat}
    {timestamp : BitVec 32} {script : List Byte} {total : BitVec 64}
    (h : c.hushNotarypay u vout notaries timestamp height script=.ok (total,paid))
    (htotal : total≠0) :
    noNotaries (c.hushNotaries height timestamp)=false ∧
      c.Notarizes u timestamp height script ∧
      c.hushNotarypayamount height notaries.length≠0 := by
  have hzero : ∀l : List CTxOut,(.ok (0,l) : Except PayFault _)≠.ok (total,paid) := by
    intro l heq
    cases heq
    exact htotal rfl
  unfold PayChain.hushNotarypay at h
  dsimp only at h
  by_cases hkeys : noNotaries (c.hushNotaries height timestamp)=true
  · rw [if_pos hkeys] at h
    exact absurd h (hzero _)
  rw [if_neg hkeys] at h
  cases hheight : c.hushGetnotarizedheight u timestamp height script with
  | error e =>
    rw [hheight] at h
    cases h
  | ok notarizedheight =>
    rw [hheight] at h
    change (if notarizedheight=0 then _ else _)=_ at h
    split_ifs at h with hnone hamount
    · exact absurd h (hzero _)
    · exact absurd h (hzero _)
    · exact ⟨by simpa using hkeys,⟨notarizedheight,hnone,hheight⟩,hamount⟩

theorem hushNotarypayamount_zero (c : PayChain) (height : Int32) :
    c.hushNotarypayamount height 0=0 := by
  unfold PayChain.hushNotarypayamount
  split_ifs with hera hzero
  · rfl
  · rfl
  · exact absurd rfl hzero

theorem toNat_hushNotarypayamount_mul (c : PayChain) (height : Int32) {k : Nat} (hk : k≤64) :
    (BitVec.ofNat 64 k*c.hushNotarypayamount height k).toNat=
      k*(c.hushNotarypayamount height k).toNat := by
  have hbound : k*(c.hushNotarypayamount height k).toNat<2^64 := by
    unfold PayChain.hushNotarypayamount
    split_ifs with hera hzero
    · simp
    · simp
    · rw [BitVec.toNat_udiv,BitVec.toNat_ofNat,Nat.mod_eq_of_lt (by omega)]
      exact (Nat.mul_div_le _ _).trans_lt (BitVec.isLt _)
  rw [BitVec.toNat_mul,BitVec.toNat_ofNat,Nat.mod_eq_of_lt (a := k) (by omega),
    Nat.mod_eq_of_lt hbound]

end Amounts

section Check

variable {c : PayChain} {u : PayLocals} {pblock : PayBlock} {height : Int32}

theorem rebuild_some {r : Rebuilt} (h : c.rebuild u pblock height=.ok (some r)) :
    c.getNotarizationNotaries (c.hushNotaries height pblock.nTime) pblock.notarization.vin=
        .ok (some r.NotarizationNotaries) ∧
      r.NotarizationNotaries.Nodup ∧ r.NotarizationNotaries≠[] ∧
      r.NotarizationNotaries.length≤64 ∧
      r.AmountToPay=c.hushNotarypayamount height r.NotarizationNotaries.length ∧
      r.totalsats=BitVec.ofNat 64 r.NotarizationNotaries.length*r.AmountToPay := by
  unfold PayChain.rebuild at h
  cases hgather : c.getNotarizationNotaries (c.hushNotaries height pblock.nTime)
      pblock.notarization.vin with
  | error e =>
    rw [hgather] at h
    cases h
  | ok gathered =>
    rw [hgather] at h
    cases gathered with
    | none => cases h
    | some notaries =>
      change (if ¬notaries.Nodup then _ else _)=_ at h
      by_cases hnodup : notaries.Nodup
      · rw [if_neg (not_not_intro hnodup)] at h
        have hlen := notaries_length_le hgather hnodup
        cases hscript : notarizationScript pblock.notarization with
        | none =>
          rw [hscript] at h
          cases h
        | some script =>
          rw [hscript] at h
          cases script with
          | nil => cases h
          | cons op script =>
            change (if op=0x6a then _ else _)=_ at h
            split_ifs at h with hop
            · cases hnotarypay : c.hushNotarypay u [] notaries pblock.nTime height
                  (op::script) with
              | error e =>
                rw [hnotarypay] at h
                cases h
              | ok result =>
                obtain ⟨totalsats,vout⟩ := result
                rw [hnotarypay] at h
                change (if totalsats=0 then _ else _)=_ at h
                split_ifs at h with htotal
                · cases h
                cases h
                obtain ⟨hkeys,hheight,hamount⟩ := hushNotarypay_ne_zero hnotarypay htotal
                have hpay := hushNotarypay_pays [] hlen hkeys hheight hamount
                have hne : notaries≠[] := by
                  rintro rfl
                  exact hamount (hushNotarypayamount_zero c height)
                obtain ⟨first,rest,rfl⟩ := List.exists_cons_of_ne_nil hne
                obtain ⟨rfl,rfl⟩ := Prod.mk.inj (Except.ok.inj (hnotarypay.symm.trans hpay))
                exact ⟨rfl,hnodup,hne,hlen,rfl,rfl⟩
            · cases h
      · rw [if_pos hnodup] at h
        cases h

theorem eq_payTo_of_paidAt {notarypubkeys : List (List Byte)} {notaries : List Nat}
    {AmountToPay : BitVec 64} {p : Nat} {out : CTxOut}
    (h : paidAt notarypubkeys notaries AmountToPay p out) :
    out=payTo notarypubkeys AmountToPay (notaries.getD (p-1) 0) := by
  obtain ⟨⟨hlen,hfirst,hlast⟩,hkey,hvalue⟩ := h
  obtain ⟨nValue,script⟩ := out
  dsimp only at hlen hfirst hlast hkey hvalue
  cases script with
  | nil => cases hlen
  | cons first rest =>
    have hrest : rest.length=34 := by simpa using hlen
    have htail : rest.drop 33=[OP_CHECKSIG] := by
      rw [List.drop_eq_getElem_cons (by omega),List.drop_eq_nil_of_le (by omega),←hlast]
      simp [List.getD,List.getElem?_eq_getElem (show 33 < rest.length by omega)]
    have hsplit : rest=pubkeyOf (first::rest)++[OP_CHECKSIG] := by
      rw [←htail]
      exact (List.take_append_drop 33 rest).symm
    rw [payTo,←hkey,←hsplit,hvalue]
    exact congrArg (CTxOut.mk AmountToPay) (congrArg (·::rest) hfirst)

theorem hushChecknotarypay_of_rebuild {r : Rebuilt}
    (h : c.rebuild u pblock height=.ok (some r)) :
    c.hushChecknotarypay u pblock height=
      (walkOutputs (c.hushNotaries height pblock.nTime) r.NotarizationNotaries pblock.coinbase
        r.AmountToPay pblock.coinbase 0 0 0).bind fun (found,total) =>
          if found≠0 ∧ found.toInt=r.NotarizationNotaries.length ∧ r.totalsats=total then
            .ok r.totalsats
          else .ok 0 := by
  rw [PayChain.hushChecknotarypay,h]
  rfl

/-- The loop goes past the output of the miner. -/
theorem walkOutputs_first (notarypubkeys : List (List Byte)) (notaries : List Nat)
    (vout : List CTxOut) (AmountToPay : BitVec 64) :
    walkOutputs notarypubkeys notaries vout AmountToPay vout 0 0 0=
      walkOutputs notarypubkeys notaries vout AmountToPay (vout.drop 1) (BitVec.ofNat 8 1) 0 0 := by
  cases vout with
  | nil => rfl
  | cons out rest =>
    rw [walkOutputs,if_pos rfl]
    rfl

/-- The result when nothing behind the notaries' outputs pays to a public key. -/
theorem hushChecknotarypay_eq {r : Rebuilt} (h : c.rebuild u pblock height=.ok (some r))
    (hplain : PlainBehind r.NotarizationNotaries pblock.coinbase) :
    c.hushChecknotarypay u pblock height=
      if countPaid (c.hushNotaries height pblock.nTime) r.NotarizationNotaries r.AmountToPay 1
        (pblock.coinbase.drop 1)=r.NotarizationNotaries.length then .ok r.totalsats
      else .ok 0 := by
  obtain ⟨-,-,hne,hlen,-,htotal⟩ := rebuild_some h
  have hle := countPaid_le (c.hushNotaries height pblock.nTime) r.AmountToPay hplain
    (pblock.coinbase.drop 1) rfl
  have hpos : 0 < r.NotarizationNotaries.length := List.length_pos_of_ne_nil hne
  rw [hushChecknotarypay_of_rebuild h,walkOutputs_first,
    walkOutputs_eq hplain hlen _ le_rfl rfl]
  generalize countPaid (c.hushNotaries height pblock.nTime) r.NotarizationNotaries r.AmountToPay 1
    (pblock.coinbase.drop 1)=count at hle ⊢
  have hfound : (0 : BitVec 8)+BitVec.ofNat 8 count=BitVec.ofNat 8 count := BitVec.zero_add _
  have hsats : (0 : BitVec 64)+BitVec.ofNat 64 count*r.AmountToPay=
      BitVec.ofNat 64 count*r.AmountToPay := BitVec.zero_add _
  simp only [Except.bind,hfound,hsats]
  by_cases hcount : count=r.NotarizationNotaries.length
  · rw [if_pos hcount,if_pos]
    rw [toInt_position (by omega),hcount]
    refine ⟨?_,rfl,htotal⟩
    intro hzero
    have hint := toInt_position (show count<128 by omega)
    rw [hcount,hzero] at hint
    change (0 : Int)=_ at hint
    omega
  · rw [if_neg hcount,if_neg]
    rintro ⟨-,hfound,-⟩
    rw [toInt_position (by omega)] at hfound
    omega

/-- The coinbase pays each signer of the notarization once, in order and in full. -/
def PaysExactly (c : PayChain) (pblock : PayBlock) (height : Int32) (total : BitVec 64) : Prop :=
  ∃notaries,c.getNotarizationNotaries (c.hushNotaries height pblock.nTime)
      pblock.notarization.vin=.ok (some notaries) ∧ notaries.Nodup ∧ notaries≠[] ∧
    (∀q,1≤q → q≤notaries.length → pblock.coinbase[q]?=
      some (payTo (c.hushNotaries height pblock.nTime)
        (c.hushNotarypayamount height notaries.length) (notaries.getD (q-1) 0))) ∧
    total.toNat=notaries.length*(c.hushNotarypayamount height notaries.length).toNat

end Check

end Zdeex.Notary
