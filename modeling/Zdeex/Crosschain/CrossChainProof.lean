import Mathlib.Algebra.BigOperators.Group.List.Basic
import Zdeex.Crosschain.CheckMigration
import Zdeex.Crosschain.NotarizationDb
import Zdeex.Framework.MerkleTree

namespace Zdeex.CrossChainProof

open Zdeex.Crosschain (MerkleBranch TxProof foldBranch RightEqual safeCheckMerkleBranch)
open Zdeex.Framework
open Zdeex.NotarizationDb

section Definitions

/-- The active chain with the notarization database, and the heights of confirmed
transactions. -/
structure HushChain where
  vChain : List Uint256
  getBlockNotarizations : Uint256 → Option NotarizationsInBlock
  getTxConfirmed : Uint256 → Option Nat
  hash : Uint256 → Uint256 → Uint256
  NOTARISATION_SCAN_LIMIT_BLOCKS : Nat

/-- `memcmp`: the first byte of a hash counts most. -/
def memKey (h : Uint256) : Nat := natOf (toBytes h).reverse

/-- `std::set::insert`. -/
def insertMoM (m : Uint256) : List Uint256 → List Uint256
  | [] => [m]
  | x::moms =>
      if memKey m < memKey x then m::x::moms
      else if memKey x < memKey m then x::insertMoM m moms
      else x::moms

/-- The MoMs of a block that belong to the cluster. -/
def insertMoMs (targetCCid : BitVec 32) (notarizations : NotarizationsInBlock)
    (tmp_moms : List Uint256) : List Uint256 :=
  notarizations.foldl (fun tmp_moms nota =>
    if getSymbolAuthority nota.2.symbol=CROSSCHAIN_HUSH ∧ nota.2.ccId.setWidth 32=targetCCid then
      insertMoM nota.2.MoM tmp_moms
    else tmp_moms) tmp_moms

/-- The loop over the own notarizations of a block, which stops at the seventh. -/
def ownLoop (symbol : List Byte) : NotarizationsInBlock → Nat → Uint256 → Nat × Uint256
  | [],seenOwnNotarizations,destNotarizationTxid => (seenOwnNotarizations,destNotarizationTxid)
  | nota::notarizations,seenOwnNotarizations,destNotarizationTxid =>
      if nota.2.symbol.1=symbol then
        if seenOwnNotarizations+1=1 then ownLoop symbol notarizations 1 nota.1
        else if seenOwnNotarizations+1=7 then (7,destNotarizationTxid)
        else ownLoop symbol notarizations (seenOwnNotarizations+1) destNotarizationTxid
      else ownLoop symbol notarizations seenOwnNotarizations destNotarizationTxid

structure ProofRoot where
  MoMoM : Uint256
  moms : List Uint256
  destNotarizationTxid : Uint256

variable (C : HushChain)

def HushChain.notarizationsAt (h : Nat) : Option NotarizationsInBlock :=
  (C.vChain[h]?).bind C.getBlockNotarizations

def HushChain.getMerkleRoot (vLeaves : List Uint256) : Uint256 :=
  (MerkleTree.build C.hash vLeaves.length vLeaves).getLastD 0

def HushChain.getMerkleBranch (vLeaves : List Uint256) (nIndex : Nat) : List Uint256 :=
  MerkleTree.branch 0 (MerkleTree.build C.hash vLeaves.length vLeaves) vLeaves.length
    vLeaves.length 0 nIndex

/-- The scan backwards; `none` when there are not enough own notarizations. -/
def HushChain.rootLoop (symbol : List Byte) (targetCCid : BitVec 32) (hushHeight : Nat) :
    Nat → Nat → Nat → Uint256 → List Uint256 → Option (List Uint256 × Uint256)
  | 0,_,_,_,_ => none
  | rounds+1,i,seen,dest,tmp_moms =>
      if i>hushHeight then none
      else
        match C.notarizationsAt (hushHeight-i) with
        | none => HushChain.rootLoop symbol targetCCid hushHeight rounds (i+1) seen dest tmp_moms
        | some notarizations =>
            let own := ownLoop symbol notarizations seen dest
            if own.1=7 then some (tmp_moms,own.2)
            else HushChain.rootLoop symbol targetCCid hushHeight rounds (i+1) own.1 own.2
              (if own.1≥1 then insertMoMs targetCCid notarizations tmp_moms else tmp_moms)

def HushChain.calculateProofRoot (symbol : List Byte) (targetCCid : BitVec 32)
    (hushHeight : Int) : ProofRoot :=
  if targetCCid<2 then ⟨0,[],0⟩
  else if hushHeight<0 ∨ hushHeight≥C.vChain.length then ⟨0,[],0⟩
  else
    match C.rootLoop symbol targetCCid hushHeight.toNat C.NOTARISATION_SCAN_LIMIT_BLOCKS 0 0 0
        [] with
    | none => ⟨0,[],0⟩
    | some (moms,dest) => ⟨C.getMerkleRoot moms,moms,dest⟩

/-- The scan forwards over `rounds` blocks from `h` on. -/
def HushChain.scanLoop (f : Notarization → Bool) : Nat → Nat → Nat
  | 0,_ => 0
  | rounds+1,h =>
      match C.notarizationsAt h with
      | none => HushChain.scanLoop f rounds (h+1)
      | some notarizations =>
          if notarizations.any f then h else HushChain.scanLoop f rounds (h+1)

def HushChain.scanNotarizationsFromHeight (nHeight : Nat) (f : Notarization → Bool) : Nat :=
  let limit := min (nHeight+C.NOTARISATION_SCAN_LIMIT_BLOCKS) (C.vChain.length-1)
  let start := max nHeight 1
  C.scanLoop f (limit-start) start

/-- `MerkleBranch::operator<<`, whose index is an `int`. -/
def appendBranch (b c : MerkleBranch) : MerkleBranch :=
  ⟨(BitVec.ofInt 32 (b.nIndex+c.nIndex*2^b.branch.length)).toInt,b.branch++c.branch⟩

def HushChain.getCrossChainProof (txid : Uint256) (targetSymbol : List Byte)
    (targetCCid : BitVec 32) (assetChainProof : TxProof) (offset : Int) :
    Except String TxProof := do
  let MoM := assetChainProof.2.exec C.hash txid
  match C.getTxConfirmed assetChainProof.1 with
  | none => throw "Notarization not found"
  | some height =>
      let hushHeight := C.scanNotarizationsFromHeight height fun nota =>
        decide (nota.2.symbol.1=targetSymbol)
      if hushHeight=0 then
        throw "Cannot find notarization for target inclusive of source"
      else
        let root := C.calculateProofRoot targetSymbol targetCCid (hushHeight+offset)
        if root.MoMoM.isNull then throw "No MoMs found"
        else
          match root.moms.findIdx? (· == MoM) with
          | none => throw "Couldn't find MoM within MoMoM set"
          | some nIndex =>
              let newBranch := appendBranch assetChainProof.2
                ⟨nIndex,C.getMerkleBranch root.moms nIndex⟩
              if newBranch.exec C.hash txid≠root.MoMoM then throw "Proof check failed"
              else return (root.destNotarizationTxid,newBranch)

end Definitions

section Sets

theorem memKey_inj {a b : Uint256} (h : memKey a=memKey b) : a=b := by
  have hlen : (toBytes a).reverse.length=(toBytes b).reverse.length := by simp
  have hbytes := bytesOf_natOf (toBytes a).reverse
  unfold memKey at h
  rw [h,hlen,bytesOf_natOf] at hbytes
  rw [←ofBytes_toBytes (by decide) a,←ofBytes_toBytes (by decide) b,
    List.reverse_injective hbytes]

theorem mem_insertMoM (m x : Uint256) (moms : List Uint256) :
    x∈insertMoM m moms ↔ x=m ∨ x∈moms := by
  induction moms with
  | nil => simp [insertMoM]
  | cons y moms ih =>
    rw [insertMoM]
    split_ifs with hlt hgt
    · simp
    · rw [List.mem_cons,ih,List.mem_cons]
      exact or_left_comm
    · obtain rfl : m=y := memKey_inj (by omega)
      simp

/-- The order of a set of hashes, which holds each hash once. -/
def Ordered (moms : List Uint256) : Prop := moms.Pairwise fun a b => memKey a < memKey b

theorem insertMoM_ordered (m : Uint256) {moms : List Uint256} (h : Ordered moms) :
    Ordered (insertMoM m moms) := by
  induction moms with
  | nil => exact List.pairwise_singleton _ _
  | cons y moms ih =>
    obtain ⟨hy,hmoms⟩ := List.pairwise_cons.mp h
    rw [insertMoM]
    split_ifs with hlt hgt
    · refine List.pairwise_cons.mpr ⟨fun x hx => ?_,h⟩
      rcases List.mem_cons.mp hx with rfl | hx
      · exact hlt
      · exact lt_trans hlt (hy x hx)
    · refine List.pairwise_cons.mpr ⟨fun x hx => ?_,ih hmoms⟩
      rcases (mem_insertMoM m x moms).mp hx with rfl | hx
      · exact hgt
      · exact hy x hx
    · exact h

theorem Ordered.nodup {moms : List Uint256} (h : Ordered moms) : moms.Nodup :=
  h.imp fun hlt heq => by
    rw [heq] at hlt
    omega

theorem insertMoMs_spec (targetCCid : BitVec 32) (notarizations : NotarizationsInBlock)
    {tmp_moms : List Uint256} (h : Ordered tmp_moms) :
    Ordered (insertMoMs targetCCid notarizations tmp_moms) ∧
      ∀m,m∈insertMoMs targetCCid notarizations tmp_moms ↔ m∈tmp_moms ∨
        ∃nota∈notarizations,nota.2.ccId.setWidth 32=targetCCid ∧ nota.2.MoM=m := by
  induction notarizations generalizing tmp_moms with
  | nil => exact ⟨h,fun m => by simp [insertMoMs]⟩
  | cons nota notarizations ih =>
    have hfold : insertMoMs targetCCid (nota::notarizations) tmp_moms=
        insertMoMs targetCCid notarizations
          (if getSymbolAuthority nota.2.symbol=CROSSCHAIN_HUSH ∧
              nota.2.ccId.setWidth 32=targetCCid then insertMoM nota.2.MoM tmp_moms
            else tmp_moms) := rfl
    rw [hfold]
    by_cases hmember : nota.2.ccId.setWidth 32=targetCCid
    · rw [if_pos ⟨rfl,hmember⟩]
      obtain ⟨hordered,hmem⟩ := ih (insertMoM_ordered nota.2.MoM h)
      refine ⟨hordered,fun m => ?_⟩
      rw [hmem,mem_insertMoM,List.exists_mem_cons_iff,or_comm (a := m=nota.2.MoM),or_assoc]
      simp only [hmember,true_and,eq_comm]
    · rw [if_neg fun hboth => hmember hboth.2]
      obtain ⟨hordered,hmem⟩ := ih h
      refine ⟨hordered,fun m => ?_⟩
      rw [hmem,List.exists_mem_cons_iff]
      simp only [hmember,false_and,false_or]

end Sets

section Scans

variable (C : HushChain) (symbol : List Byte) (targetCCid : BitVec 32) (hushHeight : Nat)

/-- How many notarizations of the symbol a block holds. -/
def HushChain.own (h : Nat) : Nat :=
  ((C.notarizationsAt h).getD []).countP fun nota => decide (nota.2.symbol.1=symbol)

/-- How many the `i` blocks from a height downwards hold. -/
def HushChain.ownBack : Nat → Nat
  | 0 => 0
  | i+1 => HushChain.ownBack i+C.own symbol (hushHeight-i)

/-- The MoMs of the cluster in the `i` blocks from a height downwards. -/
def HushChain.scanned : Nat → List Uint256
  | 0 => []
  | i+1 => insertMoMs targetCCid ((C.notarizationsAt (hushHeight-i)).getD [])
      (HushChain.scanned i)

/-- The seventh own notarization counting back is `i` blocks below the height. -/
structure Seventh (i : Nat) : Prop where
  limit : i<C.NOTARISATION_SCAN_LIMIT_BLOCKS
  height : i≤hushHeight
  fewer : C.ownBack symbol hushHeight i<7
  reached : 7≤C.ownBack symbol hushHeight (i+1)

variable {C symbol targetCCid hushHeight}

theorem ownLoop_fst (notarizations : NotarizationsInBlock) {seen : Nat} (h : seen<7)
    (dest : Uint256) : (ownLoop symbol notarizations seen dest).1=
      min 7 (seen+notarizations.countP fun nota => decide (nota.2.symbol.1=symbol)) := by
  induction notarizations generalizing seen dest with
  | nil =>
    rw [ownLoop,List.countP_nil]
    omega
  | cons nota notarizations ih =>
    rw [ownLoop,List.countP_cons]
    by_cases hown : nota.2.symbol.1=symbol
    · rw [if_pos hown,if_pos (decide_eq_true hown)]
      split_ifs with hfirst hlast
      · rw [ih (by omega)]
        omega
      · omega
      · rw [ih (by omega)]
        omega
    · rw [if_neg hown,if_neg (by simpa using hown),ih h]
      rfl

theorem ownBack_mono {i j : Nat} (h : i≤j) :
    C.ownBack symbol hushHeight i≤C.ownBack symbol hushHeight j := by
  induction h with
  | refl => exact le_rfl
  | step _ ih => exact le_trans ih (Nat.le_add_right _ _)

theorem scanned_spec (i : Nat) : Ordered (C.scanned targetCCid hushHeight i) ∧
    ∀m,m∈C.scanned targetCCid hushHeight i ↔ ∃k < i,
      ∃nota∈(C.notarizationsAt (hushHeight-k)).getD [],
        nota.2.ccId.setWidth 32=targetCCid ∧ nota.2.MoM=m := by
  induction i with
  | zero => exact ⟨List.Pairwise.nil,fun m => by simp [HushChain.scanned]⟩
  | succ i ih =>
    obtain ⟨hordered,hmem⟩ := insertMoMs_spec targetCCid
      ((C.notarizationsAt (hushHeight-i)).getD []) ih.1
    refine ⟨hordered,fun m => ?_⟩
    rw [HushChain.scanned,hmem,ih.2]
    constructor
    · rintro (⟨k,hk,hnota⟩ | hnota)
      · exact ⟨k,by omega,hnota⟩
      · exact ⟨i,by omega,hnota⟩
    · rintro ⟨k,hk,hnota⟩
      rcases Nat.lt_succ_iff_lt_or_eq.mp hk with hlt | rfl
      · exact .inl ⟨k,hlt,hnota⟩
      · exact .inr hnota

theorem own_eq_zero {h : Nat} (hnone : C.notarizationsAt h=none) : C.own symbol h=0 := by
  rw [HushChain.own,hnone]
  rfl

/-- The scan backwards stops at the seventh own notarization with the MoMs above it. -/
theorem rootLoop_spec {i : Nat} (hseventh : Seventh C symbol hushHeight i)
    (hown : C.own symbol hushHeight≠0) (k rounds j : Nat) (hij : i=j+k) (dest : Uint256) :
    ∃dest',C.rootLoop symbol targetCCid hushHeight (rounds+k+1) j
      (C.ownBack symbol hushHeight j) dest (C.scanned targetCCid hushHeight j)=
        some (C.scanned targetCCid hushHeight i,dest') := by
  induction k generalizing j dest with
  | zero =>
    obtain rfl : i=j := hij
    have hreached := hseventh.reached
    have hfewer := hseventh.fewer
    rw [HushChain.ownBack] at hreached
    rw [HushChain.rootLoop,if_neg (by have := hseventh.height; omega)]
    cases hns : C.notarizationsAt (hushHeight-i) with
    | none =>
      rw [own_eq_zero hns] at hreached
      omega
    | some notarizations =>
      rw [HushChain.own,hns,Option.getD_some] at hreached
      dsimp only
      rw [if_pos (by rw [ownLoop_fst notarizations hfewer dest]; omega)]
      exact ⟨_,rfl⟩
  | succ k ih =>
    have hheight := hseventh.height
    have hbelow : C.ownBack symbol hushHeight (j+1)<7 :=
      lt_of_le_of_lt (ownBack_mono (by omega)) hseventh.fewer
    have hfirst : 1≤C.ownBack symbol hushHeight (j+1) := by
      have hone : C.ownBack symbol hushHeight 1=C.own symbol hushHeight := Nat.zero_add _
      have hmono : C.ownBack symbol hushHeight 1≤C.ownBack symbol hushHeight (j+1) :=
        ownBack_mono (by omega)
      omega
    have hstep : C.ownBack symbol hushHeight (j+1)=
        C.ownBack symbol hushHeight j+C.own symbol (hushHeight-j) := rfl
    have hscan : C.scanned targetCCid hushHeight (j+1)=insertMoMs targetCCid
        ((C.notarizationsAt (hushHeight-j)).getD []) (C.scanned targetCCid hushHeight j) := rfl
    rw [HushChain.rootLoop,if_neg (by omega)]
    cases hns : C.notarizationsAt (hushHeight-j) with
    | none =>
      have hnext := ih (j+1) (by omega) dest
      rw [hstep,own_eq_zero hns,hscan,hns] at hnext
      exact hnext
    | some notarizations =>
      have hcount : C.own symbol (hushHeight-j)=
          notarizations.countP fun nota => decide (nota.2.symbol.1=symbol) := by
        rw [HushChain.own,hns]
        rfl
      have hseen : (ownLoop symbol notarizations (C.ownBack symbol hushHeight j) dest).1=
          C.ownBack symbol hushHeight (j+1) := by
        rw [ownLoop_fst notarizations (by omega) dest]
        omega
      have hnext := ih (j+1) (by omega) (ownLoop symbol notarizations
        (C.ownBack symbol hushHeight j) dest).2
      rw [hscan,hns] at hnext
      dsimp only
      rw [hseen,if_neg (by omega),if_pos hfirst]
      exact hnext

/-- The scan forwards finds the first block with an own notarization. -/
theorem scanLoop_spec {hB : Nat} (hown : C.own symbol hB≠0) (rounds h : Nat) (hle : h≤hB)
    (hlt : hB<h+rounds) (hfirst : ∀k,h≤k → k<hB → C.own symbol k=0) :
    C.scanLoop (fun nota => decide (nota.2.symbol.1=symbol)) rounds h=hB := by
  induction rounds generalizing h with
  | zero => omega
  | succ rounds ih =>
    have hnext : h≠hB → C.scanLoop (fun nota => decide (nota.2.symbol.1=symbol)) rounds (h+1)=hB :=
      fun hne => ih (h+1) (by omega) (by omega) fun k hk => hfirst k (by omega)
    rw [HushChain.scanLoop]
    cases hns : C.notarizationsAt h with
    | none =>
      refine hnext ?_
      rintro rfl
      exact hown (own_eq_zero hns)
    | some notarizations =>
      have hcount : C.own symbol h=
          notarizations.countP fun nota => decide (nota.2.symbol.1=symbol) := by
        rw [HushChain.own,hns]
        rfl
      dsimp only
      by_cases heq : h=hB
      · subst heq
        have hany : notarizations.any (fun nota => decide (nota.2.symbol.1=symbol))=true := by
          rw [List.any_eq_true]
          rw [hcount] at hown
          exact List.countP_pos_iff.mp (Nat.pos_of_ne_zero hown)
        rw [if_pos hany]
      · have hnone : ¬notarizations.any (fun nota => decide (nota.2.symbol.1=symbol))=true := by
          have hzero := hfirst h le_rfl (by omega)
          rw [hcount,List.countP_eq_zero] at hzero
          rw [List.any_eq_true]
          rintro ⟨nota,hmem,hsymbol⟩
          exact hzero nota hmem hsymbol
        rw [if_neg hnone]
        exact hnext heq

end Scans

section Branches

variable {hash : Uint256 → Uint256 → Uint256}

theorem foldBranch_eq_climb (l : List Uint256) (i : Nat) (h : Uint256) :
    foldBranch hash l i h=MerkleTree.climb hash l i h := by
  induction l generalizing i h with
  | nil => rfl
  | cons it l ih =>
    have hmod : (i : Int)%2=1 ↔ i%2=1 := by omega
    rw [foldBranch,MerkleTree.climb]
    simp only [hmod]
    exact ih (i/2) _

theorem rightEqual_iff_twins (l : List Uint256) (i : Nat) (h : Uint256) :
    RightEqual hash l i h ↔ MerkleTree.Twins hash l i h := by
  induction l generalizing i h with
  | nil => exact Iff.rfl
  | cons it l ih =>
    have hmod : (i : Int)%2=1 ↔ i%2=1 := by omega
    rw [RightEqual,MerkleTree.Twins]
    simp only [hmod]
    exact or_congr_right (ih (i/2) _)

/-- The index of a branch has no bits above the branch. -/
structure IndexInRange (b : MerkleBranch) : Prop where
  low : 0≤b.nIndex
  high : b.nIndex<2^b.branch.length

variable {a b : MerkleBranch} {h : Uint256}

theorem IndexInRange.natIndex (hb : IndexInRange b) :
    ∃n : Nat,b.nIndex=n ∧ n<2^b.branch.length := by
  obtain ⟨n,hn⟩ := Int.eq_ofNat_of_zero_le hb.low
  have hhigh := hb.high
  rw [hn] at hhigh
  exact ⟨n,hn,by exact_mod_cast hhigh⟩

/-- The `int` of the joined index does not overflow. -/
theorem appendBranch_nIndex (hdepth : a.branch.length+b.branch.length<31) {n m : Nat}
    (ha : a.nIndex=n) (hn : n<2^a.branch.length) (hb : b.nIndex=m) (hm : m<2^b.branch.length) :
    (appendBranch a b).nIndex=((n+2^a.branch.length*m : Nat) : Int) := by
  have hsum : a.nIndex+b.nIndex*2^a.branch.length=((n+2^a.branch.length*m : Nat) : Int) := by
    rw [ha,hb]
    push_cast
    ring
  have hbound : n+2^a.branch.length*m<2^31 := by
    have hpow : 2^a.branch.length*2^b.branch.length≤2^30 := by
      rw [← pow_add]
      exact Nat.pow_le_pow_right (by decide) (by omega)
    have hmul : 2^a.branch.length*(m+1)≤2^a.branch.length*2^b.branch.length :=
      Nat.mul_le_mul_left _ (by omega)
    rw [Nat.mul_add,Nat.mul_one] at hmul
    omega
  change (BitVec.ofInt 32 (a.nIndex+b.nIndex*2^a.branch.length)).toInt=_
  rw [hsum,BitVec.toInt_ofInt]
  exact Int.bmod_eq_of_le (by omega) (by omega)

/-- Behind a branch that is not rejected, the joined branch does what the second one does. -/
theorem exec_append (ha : IndexInRange a) (hb : IndexInRange b)
    (hdepth : a.branch.length+b.branch.length<31) (hvalid : ¬a.Rejected hash h) :
    (appendBranch a b).exec hash h=b.exec hash (a.exec hash h) := by
  obtain ⟨n,hn,hnlt⟩ := ha.natIndex
  obtain ⟨m,hm,hmlt⟩ := hb.natIndex
  have hindex := appendBranch_nIndex hdepth hn hnlt hm hmlt
  have hfold : a.exec hash h=MerkleTree.climb hash a.branch n h := by
    rcases MerkleBranch.exec_cases hash a h with ⟨hrejected,-⟩ | ⟨-,hexec⟩
    · exact absurd hrejected hvalid
    · rw [hexec,hn,foldBranch_eq_climb]
  have hclean : ¬MerkleTree.Twins hash a.branch n h := by
    rw [← rightEqual_iff_twins,← hn]
    exact fun hequal => hvalid (.inr hequal)
  have hrejected : (appendBranch a b).Rejected hash h ↔ b.Rejected hash (a.exec hash h) := by
    have hequal : RightEqual hash (appendBranch a b).branch (appendBranch a b).nIndex h ↔
        RightEqual hash b.branch b.nIndex (a.exec hash h) := by
      rw [hindex,hm,hfold,rightEqual_iff_twins,rightEqual_iff_twins]
      exact (MerkleTree.twins_append _ _ _ _ hnlt _).trans (or_iff_right hclean)
    have hpositive : (appendBranch a b).nIndex≠ -1 := by omega
    have hpositive' : b.nIndex≠ -1 := by omega
    exact or_congr (iff_of_false hpositive hpositive') hequal
  rcases MerkleBranch.exec_cases hash (appendBranch a b) h with ⟨hr,hexec⟩ | ⟨hr,hexec⟩
  · rcases MerkleBranch.exec_cases hash b (a.exec hash h) with ⟨-,hexec'⟩ | ⟨hr',-⟩
    · rw [hexec,hexec']
    · exact absurd (hrejected.mp hr) hr'
  · rcases MerkleBranch.exec_cases hash b (a.exec hash h) with ⟨hr',-⟩ | ⟨-,hexec'⟩
    · exact absurd (hrejected.mpr hr') hr
    · rw [hexec,hexec',hindex,hm,foldBranch_eq_climb,foldBranch_eq_climb,hfold]
      exact MerkleTree.climb_append _ _ _ _ hnlt _

/-- The branch of a leaf among different leaves is not rejected and leads to the root. -/
theorem safeCheck_siblings {leaves : List Uint256} {idx : Nat} (hidx : idx < leaves.length)
    (hnodup : leaves.Nodup)
    (hfree : MerkleTree.CollisionFree hash (MerkleTree.hashed hash leaves.length leaves)) :
    safeCheckMerkleBranch hash (leaves.getD idx 0)
      (MerkleTree.siblings hash 0 leaves.length leaves idx) idx=
        MerkleTree.root hash 0 leaves.length leaves := by
  have hfold : foldBranch hash (MerkleTree.siblings hash 0 leaves.length leaves idx) idx
      (leaves.getD idx 0)=MerkleTree.root hash 0 leaves.length leaves := by
    rw [foldBranch_eq_climb]
    exact MerkleTree.climb_siblings _ _ (by omega) _ hidx
  rcases MerkleBranch.exec_cases hash
    ⟨idx,MerkleTree.siblings hash 0 leaves.length leaves idx⟩ (leaves.getD idx 0) with
    ⟨hminus | hequal,-⟩ | ⟨-,hexec⟩
  · dsimp only at hminus
    omega
  · rw [rightEqual_iff_twins] at hequal
    exact absurd hequal (MerkleTree.not_twins_siblings _ _ hnodup hfree _ hidx)
  · exact hexec.trans hfold

/-- A branch of a tree of different hashes, behind a branch to one of them. -/
theorem exec_appendBranch {txid : Uint256} {moms : List Uint256} {idx : Nat}
    (hvalid : ¬b.Rejected hash txid) (hrange : IndexInRange b) (hidx : idx < moms.length)
    (hfold : foldBranch hash b.branch b.nIndex txid=moms.getD idx 0) (hnodup : moms.Nodup)
    (hfree : MerkleTree.CollisionFree hash (MerkleTree.hashed hash moms.length moms))
    (hdepth : b.branch.length+MerkleTree.depth moms.length moms.length<31) :
    (appendBranch b ⟨idx,MerkleTree.siblings hash 0 moms.length moms idx⟩).exec hash txid=
      MerkleTree.root hash 0 moms.length moms := by
  have hlength : (MerkleTree.siblings hash 0 moms.length moms idx).length=
      MerkleTree.depth moms.length moms.length := MerkleTree.length_siblings _ _ _
  have hsecond : IndexInRange ⟨idx,MerkleTree.siblings hash 0 moms.length moms idx⟩ := by
    have hsize := MerkleTree.le_two_pow_depth moms.length moms.length (by omega)
    refine ⟨Int.natCast_nonneg idx,?_⟩
    rw [hlength]
    exact Int.ofNat_lt.mpr (hidx.trans_le hsize) |>.trans_eq (by push_cast; rfl)
  have hexec : b.exec hash txid=moms.getD idx 0 := by
    rcases MerkleBranch.exec_cases hash b txid with ⟨hrejected,-⟩ | ⟨-,hexec⟩
    · exact absurd hrejected hvalid
    · rw [hexec,hfold]
  rw [exec_append hrange hsecond (by rw [hlength]; exact hdepth) hvalid,hexec]
  exact safeCheck_siblings hidx hnodup hfree

end Branches

section Proofs

/-- What the asset chain and the database promise: the notarization `nA` of the proof is in
block `hA`, `hB` is the first block from there on with a notarization of the target, and the
seventh of these counting back is `i` blocks below `hB`. -/
structure Notarized (C : HushChain) (txid : Uint256) (target : List Byte)
    (targetCCid : BitVec 32) (proof : TxProof) (nA : NotarizationData) (hA hB i : Nat) : Prop where
  confirmed : C.getTxConfirmed proof.1=some hA
  notarized : (proof.1,nA)∈(C.notarizationsAt hA).getD []
  ccId : nA.ccId.setWidth 32=targetCCid
  valid : ¬proof.2.Rejected C.hash txid
  folds : foldBranch C.hash proof.2.branch proof.2.nIndex txid=nA.MoM
  above : hA≤hB
  near : hB≤hA+C.NOTARISATION_SCAN_LIMIT_BLOCKS
  tip : hB<C.vChain.length
  holds : C.own target hB≠0
  first : ∀h,hA≤h → h<hB → C.own target h=0
  few : C.own target hB<7
  seventh : Seventh C target hB i
  depth : proof.2.branch.length+MerkleTree.depth (C.scanned targetCCid hB i).length
    (C.scanned targetCCid hB i).length<31
  collisionFree : MerkleTree.CollisionFree C.hash (MerkleTree.hashed C.hash
    (C.scanned targetCCid hB i).length (C.scanned targetCCid hB i))

/-- The proof is found, and leads to the root of the ordered MoMs of the cluster in the
blocks above the seventh notarization. -/
def Proven (C : HushChain) (txid : Uint256) (target : List Byte) (targetCCid : BitVec 32)
    (proof : TxProof) (hB i : Nat) : Prop :=
  ∃dest newBranch,C.getCrossChainProof txid target targetCCid proof 0=.ok (dest,newBranch) ∧
    newBranch.exec C.hash txid=(C.calculateProofRoot target targetCCid hB).MoMoM ∧
    ∃moms,(C.calculateProofRoot target targetCCid hB).MoMoM=
        MerkleTree.root C.hash 0 moms.length moms ∧
      Ordered moms ∧ ∀m,m∈moms ↔ ∃h,hB-i<h ∧ h≤hB ∧ ∃nota∈(C.notarizationsAt h).getD [],
        nota.2.ccId.setWidth 32=targetCCid ∧ nota.2.MoM=m

variable {C : HushChain} {txid : Uint256} {target : List Byte} {targetCCid : BitVec 32}
  {proof : TxProof} {nA : NotarizationData} {hA hB i : Nat}

/-- The blocks from `hB` down to `hA` hold only the notarizations of `hB`. -/
theorem ownBack_eq (hN : Notarized C txid target targetCCid proof nA hA hB i) (j : Nat)
    (hj : j≤hB-hA) : C.ownBack target hB (j+1)=C.own target hB := by
  have habove := hN.above
  induction j with
  | zero => exact Nat.zero_add _
  | succ j ih =>
    rw [HushChain.ownBack,ih (by omega),hN.first (hB-(j+1)) (by omega) (by omega),Nat.add_zero]

theorem source_above_seventh (hN : Notarized C txid target targetCCid proof nA hA hB i) :
    hB-hA < i := by
  by_contra hge
  have hreached := hN.seventh.reached
  rw [ownBack_eq hN i (by omega)] at hreached
  have hfew := hN.few
  omega

theorem getMerkleRoot_eq (moms : List Uint256) :
    C.getMerkleRoot moms=MerkleTree.root C.hash 0 moms.length moms :=
  MerkleTree.build_getLastD _ _ (by omega)

theorem getMerkleBranch_eq {moms : List Uint256} {idx : Nat} (hidx : idx < moms.length) :
    C.getMerkleBranch moms idx=MerkleTree.siblings C.hash 0 moms.length moms idx :=
  MerkleTree.branch_eq [] moms.length moms idx hidx

theorem calculateProofRoot_eq (hN : Notarized C txid target targetCCid proof nA hA hB i)
    (hccid : ¬targetCCid<2) : ∃dest,C.calculateProofRoot target targetCCid hB=
      ⟨MerkleTree.root C.hash 0 (C.scanned targetCCid hB i).length (C.scanned targetCCid hB i),
        C.scanned targetCCid hB i,dest⟩ := by
  have hlimit := hN.seventh.limit
  have htip := hN.tip
  obtain ⟨rounds,hrounds⟩ : ∃rounds,C.NOTARISATION_SCAN_LIMIT_BLOCKS=rounds+i+1 :=
    ⟨C.NOTARISATION_SCAN_LIMIT_BLOCKS-i-1,by omega⟩
  obtain ⟨dest,hdest⟩ : ∃dest,C.rootLoop target targetCCid hB (rounds+i+1) 0 0 0 []=
      some (C.scanned targetCCid hB i,dest) :=
    rootLoop_spec hN.seventh hN.holds i rounds 0 (by omega) 0
  refine ⟨dest,?_⟩
  rw [←hrounds] at hdest
  rw [HushChain.calculateProofRoot,if_neg hccid,if_neg (by omega),Int.toNat_natCast,hdest]
  dsimp only
  rw [getMerkleRoot_eq]

/-- The scan forwards does not look at the tip. -/
theorem scanNotarizations_eq (hN : Notarized C txid target targetCCid proof nA hA hB i)
    (hbelow : hB<C.vChain.length-1) :
    C.scanNotarizationsFromHeight hA (fun nota => decide (nota.2.symbol.1=target))=hB := by
  have hsource := source_above_seventh hN
  have hlimit := hN.seventh.limit
  have hheight := hN.seventh.height
  have habove := hN.above
  refine scanLoop_spec hN.holds _ _ (by omega) (by omega) fun h hle hlt => ?_
  exact hN.first h (by omega) hlt

/-- Every transaction under a notarization in a cluster is proven by the next notarization of
the target below the tip, when the proof has no index bits above its branch and the root is
not null. -/
theorem notarized_proven (hN : Notarized C txid target targetCCid proof nA hA hB i)
    (hccid : 2≤targetCCid) (hbelow : hB<C.vChain.length-1) (hlow : 0≤proof.2.nIndex)
    (hhigh : proof.2.nIndex<2^proof.2.branch.length)
    (hroot : MerkleTree.root C.hash 0 (C.scanned targetCCid hB i).length
      (C.scanned targetCCid hB i)≠0) :
    Proven C txid target targetCCid proof hB i := by
  have hnot : ¬targetCCid<2 := by
    rw [BitVec.not_lt]
    exact hccid
  obtain ⟨dest,hresult⟩ := calculateProofRoot_eq hN hnot
  obtain ⟨hordered,hmem⟩ := scanned_spec (C := C) i
  have hsource := source_above_seventh hN
  have habove := hN.above
  have hheight := hN.seventh.height
  have hmom : nA.MoM∈C.scanned targetCCid hB i := by
    refine (hmem nA.MoM).mpr ⟨hB-hA,hsource,(proof.1,nA),?_,hN.ccId,rfl⟩
    rw [show hB-(hB-hA)=hA by omega]
    exact hN.notarized
  have hexec : proof.2.exec C.hash txid=nA.MoM := by
    rcases MerkleBranch.exec_cases C.hash proof.2 txid with ⟨hrejected,-⟩ | ⟨-,hfold⟩
    · exact absurd hrejected hN.valid
    · rw [hfold,hN.folds]
  obtain ⟨idx,hidx⟩ : ∃idx,(C.scanned targetCCid hB i).findIdx? (· == nA.MoM)=some idx := by
    rw [←Option.isSome_iff_exists,List.findIdx?_isSome,List.any_eq_true]
    exact ⟨nA.MoM,hmom,by simp⟩
  obtain ⟨hlt,hfound,-⟩ := List.findIdx?_eq_some_iff_getElem.mp hidx
  have hat : foldBranch C.hash proof.2.branch proof.2.nIndex txid=
      (C.scanned targetCCid hB i).getD idx 0 := by
    rw [hN.folds,List.getD_eq_getElem _ _ hlt]
    exact (eq_of_beq hfound).symm
  have hnew := exec_appendBranch hN.valid ⟨hlow,hhigh⟩ hlt hat hordered.nodup hN.collisionFree
    hN.depth
  rw [←getMerkleBranch_eq hlt] at hnew
  refine ⟨dest,appendBranch proof.2 ⟨idx,C.getMerkleBranch (C.scanned targetCCid hB i) idx⟩,?_,
    ?_,C.scanned targetCCid hB i,?_,hordered,fun m => ?_⟩
  · have hnull : ¬(MerkleTree.root C.hash 0 (C.scanned targetCCid hB i).length
        (C.scanned targetCCid hB i)).isNull=true := by
      rw [Uint256.isNull_iff]
      exact hroot
    have hzero : hB≠0 := by omega
    unfold HushChain.getCrossChainProof
    simp only [hN.confirmed,scanNotarizations_eq hN hbelow,if_neg hzero,Int.add_zero,hresult,
      if_neg hnull,hexec,hidx,hnew,ne_eq,not_true_eq_false,if_false]
    rfl
  · rw [hnew,hresult]
  · rw [hresult]
  · rw [hmem]
    constructor
    · rintro ⟨k,hk,hnota⟩
      exact ⟨hB-k,by omega,by omega,hnota⟩
    · rintro ⟨h,hgt,hle,hnota⟩
      refine ⟨hB-h,by omega,?_⟩
      rwa [show hB-(hB-h)=h by omega]

theorem not_proven (h : (C.getCrossChainProof txid target targetCCid proof 0).toOption=none) :
    ¬Proven C txid target targetCCid proof hB i := by
  rintro ⟨dest,newBranch,hok,-⟩
  rw [hok] at h
  cases h

/-- The symbols of the target and of the source. -/
def targetSymbol : Symbol := ⟨[0x54],by decide⟩

def sourceSymbol : Symbol := ⟨[0x41],by decide⟩

def notarizationOf (symbol : Symbol) (MoM : Uint256) (ccId : BitVec 16) : NotarizationData :=
  ⟨0,0,0,symbol,MoM,0,ccId,0,0⟩

/-- Notarizations of the target in the blocks 1 to 6 and 8, and one of the source in block
7. -/
def sevenTargets (tip : Nat) (ccId : BitVec 16) (nA : NotarizationData) : HushChain where
  vChain := (List.range (tip+1)).map (BitVec.ofNat 256)
  getBlockNotarizations b :=
    if b=7 then some [(77,nA)]
    else if b.toNat∈[1,2,3,4,5,6,8] then
      some [(100+b,notarizationOf targetSymbol (200+b) ccId)]
    else none
  getTxConfirmed txid := if txid=77 then some 7 else none
  hash a b := a*1000003+b*7+1
  NOTARISATION_SCAN_LIMIT_BLOCKS := 1440

/-- The MoM over the transaction 5 with the sibling 9 on its left. -/
def sourceMoM : Uint256 := 9*1000003+5*7+1

/-- Proofs for the transaction 5; the index 3 has a bit above its branch. -/
theorem source_notarized {tip : Nat} (htip : tip=8 ∨ tip=9) {ccId : BitVec 16}
    (hccId : ccId=1 ∨ ccId=2) {nIndex : Int} (hindex : nIndex=1 ∨ nIndex=3) :
    Notarized (sevenTargets tip ccId (notarizationOf sourceSymbol sourceMoM ccId)) 5
      targetSymbol.1 (ccId.setWidth 32) (77,⟨nIndex,[9]⟩)
      (notarizationOf sourceSymbol sourceMoM ccId) 7 8 7 := by
  rcases htip with rfl | rfl <;> rcases hccId with rfl | rfl <;> rcases hindex with rfl | rfl <;>
  exact {
    confirmed := rfl
    notarized := by decide +kernel
    ccId := rfl
    valid := by
      rintro (h | ⟨-,h⟩ | h)
      · exact absurd h (by decide)
      · exact absurd h (by decide)
      · exact h
    folds := by decide +kernel
    above := by decide
    near := by decide
    tip := by decide
    holds := by decide +kernel
    first := by
      intro h hle hlt
      obtain rfl : h=7 := by omega
      decide +kernel
    few := by decide +kernel
    seventh := ⟨by decide,by decide,by decide +kernel,by decide +kernel⟩
    depth := by decide +kernel
    collisionFree := by decide +kernel }

/-- The proof of the transaction 5 below the tip. -/
theorem source_proven :
    Proven (sevenTargets 9 2 (notarizationOf sourceSymbol sourceMoM 2)) 5 targetSymbol.1 2
      (77,⟨1,[9]⟩) 8 7 :=
  notarized_proven (source_notarized (.inr rfl) (.inr rfl) (.inl rfl)) (by decide) (by decide)
    (by decide) (by decide) (by decide +kernel)

theorem null_notarized :
    Notarized (sevenTargets 9 0 (notarizationOf sourceSymbol 0 2)) 0 targetSymbol.1 2 (77,⟨0,[]⟩)
      (notarizationOf sourceSymbol 0 2) 7 8 7 where
  confirmed := rfl
  notarized := by decide +kernel
  ccId := rfl
  valid := by
    rintro (h | h)
    · exact absurd h (by decide)
    · exact h
  folds := by decide +kernel
  above := by decide
  near := by decide
  tip := by decide
  holds := by decide +kernel
  first := by
    intro h hle hlt
    obtain rfl : h=7 := by omega
    decide +kernel
  few := by decide +kernel
  seventh := ⟨by decide,by decide,by decide +kernel,by decide +kernel⟩
  depth := by decide +kernel
  collisionFree := by decide +kernel

/-- No proof for a cluster below 2, for an index with a bit above its branch, for the null
root, and at the tip. -/
theorem notarized_unproven :
    (Notarized (sevenTargets 9 1 (notarizationOf sourceSymbol sourceMoM 1)) 5 targetSymbol.1 1
        (77,⟨1,[9]⟩) (notarizationOf sourceSymbol sourceMoM 1) 7 8 7 ∧
      ¬Proven (sevenTargets 9 1 (notarizationOf sourceSymbol sourceMoM 1)) 5 targetSymbol.1 1
        (77,⟨1,[9]⟩) 8 7) ∧
    (Notarized (sevenTargets 9 2 (notarizationOf sourceSymbol sourceMoM 2)) 5 targetSymbol.1 2
        (77,⟨3,[9]⟩) (notarizationOf sourceSymbol sourceMoM 2) 7 8 7 ∧
      ¬Proven (sevenTargets 9 2 (notarizationOf sourceSymbol sourceMoM 2)) 5 targetSymbol.1 2
        (77,⟨3,[9]⟩) 8 7) ∧
    (Notarized (sevenTargets 9 0 (notarizationOf sourceSymbol 0 2)) 0 targetSymbol.1 2
        (77,⟨0,[]⟩) (notarizationOf sourceSymbol 0 2) 7 8 7 ∧
      ¬Proven (sevenTargets 9 0 (notarizationOf sourceSymbol 0 2)) 0 targetSymbol.1 2
        (77,⟨0,[]⟩) 8 7) ∧
    (Notarized (sevenTargets 8 2 (notarizationOf sourceSymbol sourceMoM 2)) 5 targetSymbol.1 2
        (77,⟨1,[9]⟩) (notarizationOf sourceSymbol sourceMoM 2) 7 8 7 ∧
      ¬Proven (sevenTargets 8 2 (notarizationOf sourceSymbol sourceMoM 2)) 5 targetSymbol.1 2
        (77,⟨1,[9]⟩) 8 7) :=
  ⟨⟨source_notarized (.inr rfl) (.inl rfl) (.inl rfl),not_proven (by decide +kernel)⟩,
    ⟨source_notarized (.inr rfl) (.inr rfl) (.inr rfl),not_proven (by decide +kernel)⟩,
    ⟨null_notarized,not_proven (by decide +kernel)⟩,
    ⟨source_notarized (.inl rfl) (.inr rfl) (.inl rfl),not_proven (by decide +kernel)⟩⟩

end Proofs

end Zdeex.CrossChainProof
