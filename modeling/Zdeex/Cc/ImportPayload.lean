import Mathlib.Tactic.Common
import Zdeex.Cc.ImportCoin
import Zdeex.Primitives.TransactionFormat

namespace Zdeex.Cc

open Zdeex.Framework
open Zdeex.Script
open Zdeex.Coins
open Zdeex.Block
open Zdeex.Crosschain

section Scripts

theorem map_toBitVec_ofBitVec (bs : List Byte) :
    (bs.map UInt8.ofBitVec).map UInt8.toBitVec=bs := by
  rw [List.map_map]
  exact List.map_id bs

theorem map_ofBitVec_toBitVec (v : List UInt8) :
    (v.map UInt8.toBitVec).map UInt8.ofBitVec=v := by
  rw [List.map_map]
  exact List.map_id v

theorem readLength_lengthBytes (width n : Nat) : readLength (lengthBytes width n)=n%256^width := by
  have hnat : ∀bs : List Byte,readLength (bs.map UInt8.ofBitVec)=natOf bs := by
    intro bs
    induction bs with
    | nil => rfl
    | cons b bs ih =>
      rw [List.map_cons,natOf,← ih]
      rfl
  rw [lengthBytes,hnat,natOf_bytesOf]

theorem length_lengthBytes (width n : Nat) : (lengthBytes width n).length=width := by
  rw [lengthBytes,List.length_map,length_bytesOf]

/-- A push with a length field of its own. -/
theorem getOp_lengthBytes {opcode : UInt8} {width : Nat} {b : List UInt8}
    (hwidth : opcode.toNat=OP_PUSHDATA1 ∧ width=1 ∨ opcode.toNat=OP_PUSHDATA2 ∧ width=2 ∨
      opcode.toNat=OP_PUSHDATA4 ∧ width=4) (hb : b.length<256^width) :
    getOp (opcode::(lengthBytes width b.length++b))=some (opcode.toNat,b,[]) := by
  have hle : opcode.toNat≤OP_PUSHDATA4 := by
    rcases hwidth with h | h | h <;> simp [h.1,OP_PUSHDATA1,OP_PUSHDATA2,OP_PUSHDATA4]
  have hsize : pushSize opcode.toNat (lengthBytes width b.length++b)=some (b.length,b) := by
    have hnot : ¬opcode.toNat<OP_PUSHDATA1 := by
      rcases hwidth with h | h | h <;> simp [h.1,OP_PUSHDATA1,OP_PUSHDATA2,OP_PUSHDATA4]
    have hw : (if opcode.toNat=OP_PUSHDATA1 then 1 else if opcode.toNat=OP_PUSHDATA2 then 2
        else 4)=width := by
      rcases hwidth with h | h | h <;> simp [h.1,h.2,OP_PUSHDATA1,OP_PUSHDATA2,OP_PUSHDATA4]
    have hlen := length_lengthBytes width b.length
    unfold pushSize
    dsimp only
    rw [if_neg hnot,hw,if_neg (by rw [List.length_append,hlen]; omega),
      List.take_left' hlen,List.drop_left' hlen,readLength_lengthBytes,Nat.mod_eq_of_lt hb]
  rw [getOp,if_pos hle,hsize]
  dsimp only
  rw [if_neg (by omega),List.take_length,List.drop_length]

theorem getOp_pushData {b : List UInt8} (hne : b≠[]) (hb : b.length<2^32) :
    ∃opcode,0<opcode ∧ opcode≤OP_PUSHDATA4 ∧ getOp (pushData b)=some (opcode,b,[]) := by
  have hpos : 0<b.length := List.length_pos_iff.mpr hne
  unfold pushData
  split_ifs with h₁ h₂ h₃
  · have h76 : b.length<76 := h₁
    have hbyte : (UInt8.ofBitVec (BitVec.ofNat 8 b.length)).toNat=b.length := by
      change b.length%2^8=b.length
      omega
    refine ⟨b.length,hpos,by simp only [OP_PUSHDATA4]; omega,?_⟩
    change getOp (UInt8.ofBitVec (BitVec.ofNat 8 b.length)::b)=_
    rw [getOp,hbyte,if_pos (by simp only [OP_PUSHDATA4]; omega),pushSize,if_pos h₁]
    dsimp only
    rw [if_neg (by omega),List.take_length,List.drop_length]
  · exact ⟨OP_PUSHDATA1,by decide,by decide,
      getOp_lengthBytes (.inl ⟨rfl,rfl⟩) (by omega)⟩
  · exact ⟨OP_PUSHDATA2,by decide,by decide,
      getOp_lengthBytes (.inr (.inl ⟨rfl,rfl⟩)) (by omega)⟩
  · exact ⟨OP_PUSHDATA4,by decide,by decide,
      getOp_lengthBytes (.inr (.inr ⟨rfl,rfl⟩)) (by omega)⟩

/-- `GetOpReturnData` of a script `OP_RETURN << b`. -/
theorem opretData_pushData {b : List UInt8} (hne : b≠[]) (hb : b.length<2^32) :
    opretData (0x6a::pushData b)=b := by
  obtain ⟨opcode,hpos,hle,hop⟩ := getOp_pushData hne hb
  have hreturn : getOp (0x6a::pushData b)=some (OP_RETURN,[],pushData b) := rfl
  rw [opretData,getOpReturnData,hreturn]
  dsimp only
  rw [if_pos rfl,hop]
  dsimp only
  rw [if_pos ⟨hpos,hle⟩,Option.getD_some]

end Scripts

section Vectors

/-- A vector of bytes or a string in the stream. -/
def writeBytes (v : List UInt8) : List Byte := writeCompactSize v.length++v.map UInt8.toBitVec

theorem map_writeVector8 (v : List UInt8) : (writeVector8 v).map UInt8.toBitVec=writeBytes v := by
  rw [writeVector8,List.map_append,map_toBitVec_ofBitVec]
  rfl

theorem reads_uint8 (b : UInt8) : Reads readUInt8 [b.toBitVec] b :=
  (Reads.byte b.toBitVec).map UInt8.ofBitVec

theorem reads_bytes8 {v : List UInt8} (hv : v.length≤MAX_SIZE) :
    Reads readVector8 (writeBytes v) v := by
  have hbytes : Reads (Reader.bytes v.length) (v.map UInt8.toBitVec) (v.map UInt8.toBitVec) := by
    have hall := Reads.bytes (v.map UInt8.toBitVec)
    rwa [List.length_map] at hall
  have hread : Reads readBytes (writeBytes v) (v.map UInt8.toBitVec) :=
    (reads_compactSize hv).bind hbytes
  have hmap := hread.map (List.map UInt8.ofBitVec)
  rwa [map_ofBitVec_toBitVec] at hmap

/-- What a vector is read from. -/
theorem readVector8_eq_some {bs rest : List Byte} {v : List UInt8}
    (h : readVector8 bs=some (v,rest)) : v.length≤MAX_SIZE ∧ bs=writeBytes v++rest := by
  obtain ⟨taken,bs₁,hread,hpure⟩ := Reader.bind_eq_some h
  obtain ⟨nSize,bs₂,hsize,hbytes⟩ := Reader.bind_eq_some hread
  obtain ⟨hmax,rfl⟩ := readCompactSize_eq_some hsize
  unfold Reader.bytes at hbytes
  split_ifs at hbytes with hlen
  obtain ⟨rfl,rfl⟩ := Prod.mk.inj (Option.some.inj hbytes)
  obtain ⟨rfl,rfl⟩ := Prod.mk.inj (Option.some.inj hpure)
  have hlength : (bs₂.take nSize).length=nSize := List.length_take_of_le hlen
  refine ⟨by rwa [List.length_map,hlength],?_⟩
  rw [writeBytes,List.length_map,hlength,map_toBitVec_ofBitVec,List.append_assoc,
    List.take_append_drop]

theorem local_vector8 : readVector8.Local := by
  intro bs v rest h
  obtain ⟨hmax,hbs⟩ := readVector8_eq_some h
  exact ⟨writeBytes v,hbs,reads_bytes8 hmax⟩

theorem local_uint8 : readUInt8.Local :=
  Reader.Local.byte.bind fun b => Reader.Local.pure (UInt8.ofBitVec b)

theorem length_writeCompactSize (n : Nat) :
    1≤(writeCompactSize n).length ∧ (writeCompactSize n).length≤9 := by
  unfold writeCompactSize
  split_ifs <;> simp

theorem length_writeBytes (v : List UInt8) :
    v.length+1≤(writeBytes v).length ∧ (writeBytes v).length≤v.length+9 := by
  have hsize := length_writeCompactSize v.length
  rw [writeBytes,List.length_append,List.length_map]
  omega

theorem unmarshal8_of_reads {α : Type} {r : Reader α} {e : List Byte} {a : α} (h : Reads r e a) :
    unmarshal8 r (e.map UInt8.ofBitVec)=some a := by
  rw [unmarshal8,map_toBitVec_ofBitVec,Chain.unmarshal_of_reads h]

end Vectors

section Tokens

/-- What `EncodeTokenCreateOpRet` pushes. -/
def tokenCreateData (create : TokenCreate) : List UInt8 :=
  [EVAL_TOKENS,chr 'c']++writeVector8 create.origpubkey++
    writeVector8 create.name++writeVector8 create.description++
    (create.oprets.filter (·.1≠0)).flatMap fun o => o.1::writeVector8 o.2

/-- The vectors of a token creation can be read again. -/
structure TokenCreate.Sized (create : TokenCreate) : Prop where
  origpubkey : create.origpubkey.length≤MAX_SIZE
  name : create.name.length≤MAX_SIZE
  description : create.description.length≤MAX_SIZE
  oprets : ∀o∈create.oprets,o.2.length≤MAX_SIZE

theorem opretsLoop_eq {rounds : Nat} {oprets : Oprets} (hrounds : oprets.length ≤ rounds)
    (hsized : ∀o∈oprets,o.2.length≤MAX_SIZE) :
    opretsLoop rounds ((oprets.flatMap fun o => o.1::writeVector8 o.2).map UInt8.toBitVec)=
      some (oprets,[]) := by
  induction oprets generalizing rounds with
  | nil => cases rounds <;> rfl
  | cons o oprets ih =>
    cases rounds with
    | zero => cases hrounds
    | succ rounds =>
      have htail := ih (Nat.le_of_succ_le_succ hrounds) fun o' ho' =>
        hsized o' (List.mem_cons_of_mem o ho')
      have hread := reads_bytes8 (hsized o (List.mem_cons_self ..))
      rw [List.flatMap_cons,List.cons_append,List.map_cons,List.map_append,map_writeVector8]
      obtain ⟨c,cs,hcs⟩ : ∃c cs,writeBytes o.2=c::cs := by
        have hlen := (length_writeBytes o.2).1
        cases hbytes : writeBytes o.2 with
        | nil =>
          rw [hbytes] at hlen
          cases hlen
        | cons c cs => exact ⟨c,cs,rfl⟩
      have hstep : ∀(opretId : Byte) (ss : List Byte),opretsLoop (rounds+1) (opretId::c::ss)=
          (do
            let vblob ← readVector8
            let rest ← opretsLoop rounds
            return (UInt8.ofBitVec opretId,vblob)::rest : Reader Oprets) (c::ss) := by
        intro opretId ss
        rfl
      rw [hcs,List.cons_append,hstep,← List.cons_append,← hcs,hread.run_bind]
      change (opretsLoop rounds _).bind _=_
      rw [htail]
      rfl

theorem length_oprets_le (oprets : Oprets) :
    oprets.length≤((oprets.flatMap fun o => o.1::writeVector8 o.2).map UInt8.toBitVec).length := by
  induction oprets with
  | nil => exact Nat.le_refl 0
  | cons o oprets ih =>
    rw [List.length_map] at ih ⊢
    rw [List.flatMap_cons,List.length_append,List.length_cons,List.length_cons]
    omega

/-- Data with id 0 are not written, all else is read back. -/
theorem unmarshal_tokenCreateData {create : TokenCreate} (h : create.Sized) :
    unmarshal8 readTokenCreate (tokenCreateData create)=
      some {create with oprets := create.oprets.filter (·.1≠0)} := by
  have hoprets : readOprets (((create.oprets.filter (·.1≠0)).flatMap fun o =>
      o.1::writeVector8 o.2).map UInt8.toBitVec)=some (create.oprets.filter (·.1≠0),[]) :=
    opretsLoop_eq (length_oprets_le _) fun o ho => h.oprets o (List.mem_of_mem_filter ho)
  have hread : readTokenCreate ((tokenCreateData create).map UInt8.toBitVec)=
      some ({create with oprets := create.oprets.filter (·.1≠0)},[]) := by
    rw [tokenCreateData,List.map_append,List.map_append,List.map_append,List.map_append,
      map_writeVector8,map_writeVector8,map_writeVector8,List.append_assoc,List.append_assoc,
      List.append_assoc]
    change readTokenCreate ([EVAL_TOKENS.toBitVec]++([(chr 'c').toBitVec]++_))=_
    unfold readTokenCreate
    rw [(reads_uint8 EVAL_TOKENS).run_bind,(reads_uint8 (chr 'c')).run_bind,
      (reads_bytes8 h.origpubkey).run_bind,(reads_bytes8 h.name).run_bind,
      (reads_bytes8 h.description).run_bind]
    change (readOprets _).bind _=_
    rw [hoprets]
    rfl
  rw [unmarshal8,unmarshal,hread]

theorem decode_encodeTokenCreateOpRet {create : TokenCreate} (h : create.Sized)
    (hlen : (tokenCreateData create).length<2^32) :
    opretData (encodeTokenCreateOpRet create)=tokenCreateData create ∧
    decodeTokenCreateOpRet (encodeTokenCreateOpRet create)=
      some {create with oprets := create.oprets.filter (·.1≠0)} := by
  have hdata : opretData (encodeTokenCreateOpRet create)=tokenCreateData create :=
    opretData_pushData (by simp) hlen
  refine ⟨hdata,?_⟩
  have hlong : 2<(tokenCreateData create).length := by
    have hkey := (length_writeBytes create.origpubkey).1
    rw [← map_writeVector8,List.length_map] at hkey
    simp only [tokenCreateData,List.length_append,List.length_cons,List.length_nil]
    omega
  rw [decodeTokenCreateOpRet,hdata,if_pos ⟨hlong,rfl,rfl⟩,unmarshal_tokenCreateData h]

theorem opretsLoop_sized {rounds : Nat} {bs rest : List Byte} {oprets : Oprets}
    (h : opretsLoop rounds bs=some (oprets,rest)) : ∀o∈oprets,o.2.length≤MAX_SIZE := by
  induction rounds generalizing bs oprets rest with
  | zero =>
    obtain ⟨rfl,-⟩ := Prod.mk.inj (Option.some.inj h)
    intro o ho
    cases ho
  | succ rounds ih =>
    cases bs with
    | nil =>
      obtain ⟨rfl,-⟩ := Prod.mk.inj (Option.some.inj h)
      intro o ho
      cases ho
    | cons opretId bs =>
      cases bs with
      | nil =>
        obtain ⟨rfl,-⟩ := Prod.mk.inj (Option.some.inj h)
        intro o ho
        cases ho
      | cons c ss =>
        obtain ⟨vblob,bs₁,hblob,htail⟩ := Reader.bind_eq_some
          (f := fun vblob => do
            let rest ← opretsLoop rounds
            return (UInt8.ofBitVec opretId,vblob)::rest) h
        obtain ⟨tail,bs₂,hloop,hpure⟩ := Reader.bind_eq_some htail
        obtain ⟨rfl,-⟩ := Prod.mk.inj (Option.some.inj hpure)
        exact List.forall_mem_cons.mpr ⟨(readVector8_eq_some hblob).1,ih hloop⟩

/-- What is decoded can be written and read again. -/
theorem TokenCreate.sized_of_decode {script : List UInt8} {create : TokenCreate}
    (h : decodeTokenCreateOpRet script=some create) : create.Sized := by
  unfold decodeTokenCreateOpRet at h
  dsimp only at h
  split_ifs at h
  unfold unmarshal8 unmarshal at h
  split at h
  next c hread =>
    obtain rfl := Option.some.inj h
    obtain ⟨_,_,-,hread⟩ := Reader.bind_eq_some hread
    obtain ⟨_,_,-,hread⟩ := Reader.bind_eq_some hread
    obtain ⟨_,_,hkey,hread⟩ := Reader.bind_eq_some hread
    obtain ⟨_,_,hname,hread⟩ := Reader.bind_eq_some hread
    obtain ⟨_,_,hdescription,hread⟩ := Reader.bind_eq_some hread
    obtain ⟨_,_,hoprets,hpure⟩ := Reader.bind_eq_some hread
    obtain ⟨rfl,-⟩ := Prod.mk.inj (Option.some.inj hpure)
    exact ⟨(readVector8_eq_some hkey).1,(readVector8_eq_some hname).1,
      (readVector8_eq_some hdescription).1,opretsLoop_sized hoprets⟩
  next => cases h

end Tokens

section Import

def PROOF_NONE : Byte := 0x00#8
def PROOF_MERKLEBRANCH : Byte := 0x11#8
def PROOF_NOTARYTXIDS : Byte := 0x12#8
def PROOF_MERKLEBLOCK : Byte := 0x13#8

def writeMerkleBranch (b : MerkleBranch) : List Byte :=
  writeVarInt 32 b.nIndex++writeVector toBytes b.branch

def readMerkleBranch : Reader MerkleBranch := do
  let nIndex ← readVarInt 32
  let branch ← readVector (Reader.word 256)
  return ⟨(BitVec.ofNat 32 nIndex).toInt,branch⟩

def writeImportProof : ImportProof → List Byte
  | .none => [PROOF_NONE]
  | .merkleBranch proofBranch =>
      PROOF_MERKLEBRANCH::(toBytes proofBranch.1++writeMerkleBranch proofBranch.2)
  | .notaryTxids notaryTxids => PROOF_NOTARYTXIDS::writeVector toBytes notaryTxids
  | .merkleBlock proofBlock => PROOF_MERKLEBLOCK::writeBytes proofBlock

/-- `SerializationOp` of a proof; an unknown kind becomes no proof. -/
def readImportProof : Reader ImportProof := do
  let proofKind ← Reader.byte
  if proofKind=PROOF_MERKLEBRANCH then
    let hash ← Reader.word 256
    let branch ← readMerkleBranch
    return .merkleBranch (hash,branch)
  else if proofKind=PROOF_NOTARYTXIDS then
    return .notaryTxids (← readVector (Reader.word 256))
  else if proofKind=PROOF_MERKLEBLOCK then
    return .merkleBlock (← readVector8)
  else return .none

/-- The index is an `int`, and vectors have a length that can be read. -/
def ProofSized : ImportProof → Prop
  | .none => True
  | .merkleBranch proofBranch => -2^31≤proofBranch.2.nIndex ∧ proofBranch.2.nIndex<2^31 ∧
      proofBranch.2.branch.length≤MAX_SIZE
  | .notaryTxids notaryTxids => notaryTxids.length≤MAX_SIZE
  | .merkleBlock proofBlock => proofBlock.length≤MAX_SIZE

/-- The index of a branch is not negative. -/
def ProofIndexed : ImportProof → Prop
  | .merkleBranch proofBranch => 0≤proofBranch.2.nIndex
  | _ => True

/-- What is read for an index: `WriteVarInt` stops after one byte at a negative number. -/
def indexBack (nIndex : Int) : Int := if nIndex<0 then nIndex%128 else nIndex

def proofBack : ImportProof → ImportProof
  | .merkleBranch (hash,b) => .merkleBranch (hash,⟨indexBack b.nIndex,b.branch⟩)
  | proof => proof

theorem proofBack_eq_iff (proof : ImportProof) : proofBack proof=proof ↔ ProofIndexed proof := by
  cases proof with
  | merkleBranch p =>
    obtain ⟨hash,nIndex,branch⟩ := p
    have hback : indexBack nIndex=nIndex ↔ 0≤nIndex := by
      unfold indexBack
      split_ifs <;> omega
    simp only [proofBack,ProofIndexed,ImportProof.merkleBranch.injEq,
      Prod.mk.injEq,true_and,MerkleBranch.mk.injEq,and_true,hback]
  | none => exact iff_of_true rfl trivial
  | notaryTxids t => exact iff_of_true rfl trivial
  | merkleBlock v => exact iff_of_true rfl trivial

theorem reads_index {nIndex : Int} (hlow : -2^31≤nIndex) (hhigh : nIndex<2^31) :
    ∃n,Reads (readVarInt 32) (writeVarInt 32 nIndex) n ∧
      (BitVec.ofNat 32 n).toInt=indexBack nIndex := by
  have hint : ∀n : Nat,n<2^31 → (BitVec.ofNat 32 n).toInt=n := by
    intro n hn
    rw [BitVec.toInt_eq_toNat_of_lt] <;> rw [BitVec.toNat_ofNat,Nat.mod_eq_of_lt] <;> omega
  unfold indexBack
  split_ifs with hneg
  · have hdigit : ∀m : Int,m≤127 → writeVarInt 32 m=[BitVec.ofNat 8 (m%128).toNat] := by
      intro m hm
      simp [writeVarInt,varIntDigits,hm]
    have hone : writeVarInt 32 nIndex=writeVarInt 32 ((nIndex%128).toNat : Nat) := by
      rw [hdigit nIndex (by omega),hdigit _ (by omega),Int.toNat_of_nonneg (by omega),
        Int.emod_emod_of_dvd nIndex (dvd_refl 128)]
    refine ⟨(nIndex%128).toNat,?_,?_⟩
    · rw [hone]
      exact reads_varInt (by decide) (by omega)
    · rw [hint _ (by omega)]
      omega
  · refine ⟨nIndex.toNat,?_,?_⟩
    · have hread := reads_varInt (w := 32) (n := nIndex.toNat) (by decide) (by omega)
      rwa [Int.toNat_of_nonneg (by omega)] at hread
    · rw [hint _ (by omega)]
      omega

theorem reads_txids {txids : List Uint256} (h : txids.length≤MAX_SIZE) :
    Reads (readVector (Reader.word 256)) (writeVector toBytes txids) txids :=
  reads_vector h fun txid _ => Reads.word (by decide) txid

theorem reads_merkleBranch {b : MerkleBranch} (hlow : -2^31≤b.nIndex) (hhigh : b.nIndex<2^31)
    (hlen : b.branch.length≤MAX_SIZE) :
    Reads readMerkleBranch (writeMerkleBranch b) ⟨indexBack b.nIndex,b.branch⟩ := by
  obtain ⟨n,hread,hn⟩ := reads_index hlow hhigh
  rw [← hn]
  exact hread.bind ((reads_txids hlen).map fun branch =>
    (⟨(BitVec.ofNat 32 n).toInt,branch⟩ : MerkleBranch))

theorem reads_importProof {proof : ImportProof} (h : ProofSized proof) :
    Reads readImportProof (writeImportProof proof) (proofBack proof) := by
  cases proof with
  | none => exact (Reads.byte PROOF_NONE).bind (Reads.pure _)
  | merkleBranch p =>
    refine (Reads.byte PROOF_MERKLEBRANCH).bind ?_
    rw [if_pos rfl]
    exact (Reads.word (by decide) p.1).bind
      ((reads_merkleBranch h.1 h.2.1 h.2.2).map fun branch =>
        ImportProof.merkleBranch (p.1,branch))
  | notaryTxids t =>
    refine (Reads.byte PROOF_NOTARYTXIDS).bind ?_
    rw [if_neg (by decide),if_pos rfl]
    exact (reads_txids h).map ImportProof.notaryTxids
  | merkleBlock v =>
    refine (Reads.byte PROOF_MERKLEBLOCK).bind ?_
    rw [if_neg (by decide),if_neg (by decide),if_pos rfl]
    exact (reads_bytes8 h).map ImportProof.merkleBlock

/-- `SerializeHash` and `GetHash`, the upgrades and the height the import is made for. -/
structure PayloadNode where
  serializeHash : List Byte → Uint256
  getHash : CTransaction → Uint256
  upgrades : Upgrades
  nextheight : Int
  pegscc : Bool

/-- The import data; a burn of an unknown format throws. -/
def marshalImport (proof : ImportProof) (burnTx : Wire.CTransaction) : Option (List UInt8) :=
  burnTx.serialize.map fun e =>
    (EVAL_IMPORTCOIN.toBitVec::(writeImportProof proof++e)).map UInt8.ofBitVec

namespace PayloadNode

variable (N : PayloadNode)

/-- `MakeImportCoinTransaction` with the burn as it is on the wire. -/
def makeImportCoinTransaction (proof : ImportProof) (burnTx : Wire.CTransaction)
    (payouts : List CTxOut) (nExpiryHeightOverride : Nat) : Option CTransaction :=
  let mtx := createNewContextual N.upgrades N.nextheight
  let nExpiryHeight := if mtx.fOverwintered then 0 else mtx.nExpiryHeight
  let withId := fun tx : CTransaction => {tx with hash := N.getHash tx}
  if payouts=[] then some (withId {mtx with nExpiryHeight := nExpiryHeight})
  else
    (marshalImport proof burnTx).map fun importData => withId {mtx with
      vin := [⟨⟨burnTx.hash,CTransaction.importMarker⟩,pushData [EVAL_IMPORTCOIN]⟩]
      nExpiryHeight := if nExpiryHeightOverride≠0 then nExpiryHeightOverride else nExpiryHeight
      vout := importVouts payouts importData}

def unmarshalImport (vImportData : List UInt8) : Option (ImportProof × Wire.CTransaction) :=
  unmarshal8 (do
    let _ ← readUInt8
    let proof ← readImportProof
    let burnTx ← Wire.CTransaction.unserialize N.serializeHash .null
    return (proof,burnTx)) vImportData

/-- `UnmarshalImportTx` into new objects. -/
def unmarshalImportTx (importTx : CTransaction) :
    Option (ImportProof × Wire.CTransaction × List CTxOut) :=
  if importTx.vout=[] then none
  else if (importTx.isPegsImport N.pegscc=false ∧ importTx.vin.length≠1) ∨
      importTx.vin.head?.map CTxIn.scriptSig≠some (pushData [EVAL_IMPORTCOIN]) then none
  else
    match ImportNode.importParts importTx with
    | none => none
    | some (payouts,vImportData) =>
        (N.unmarshalImport vImportData).map fun p => (p.1,p.2,payouts)

end PayloadNode

/-- The script of the last payout. -/
def lastPayout (payouts : List CTxOut) : List UInt8 :=
  (payouts.getLast?.map CTxOut.scriptPubKey).getD []

/-- A burn that its own serialization gives back, with its hash. -/
structure OnWire (serializeHash : List Byte → Uint256) (burnTx : Wire.CTransaction)
    (e : List Byte) : Prop where
  known : burnTx.KnownFormat
  defaults : burnTx.DefaultsOutside
  sized : burnTx.Sized
  written : burnTx.serialize=some e
  hash : burnTx.hash=serializeHash e

theorem unmarshal_marshalImport {N : PayloadNode} {proof : ImportProof}
    {burnTx : Wire.CTransaction} {e : List Byte} (hproof : ProofSized proof)
    (hburn : OnWire N.serializeHash burnTx e) {importData : List UInt8}
    (hdata : marshalImport proof burnTx=some importData) :
    importData.head?=some EVAL_IMPORTCOIN ∧
      N.unmarshalImport importData=some (proofBack proof,burnTx) := by
  rw [marshalImport,hburn.written] at hdata
  obtain rfl := Option.some.inj hdata
  have htx : Reads (Wire.CTransaction.unserialize N.serializeHash .null) e burnTx :=
    (Wire.wire_lossless N.serializeHash).2.1 burnTx e hburn.known hburn.defaults hburn.sized
      hburn.written hburn.hash
  have hread := (reads_uint8 EVAL_IMPORTCOIN).bind (f := fun _ => do
    let proof ← readImportProof
    let burnTx ← Wire.CTransaction.unserialize N.serializeHash .null
    return (proof,burnTx))
    ((reads_importProof hproof).bind (htx.map fun burnTx => (proofBack proof,burnTx)))
  exact ⟨rfl,unmarshal8_of_reads hread⟩

theorem lastScript_concat {tx : CTransaction} {payouts : List CTxOut} {nValue : Int}
    {script : List UInt8} (h : tx.vout=payouts++[⟨nValue,script⟩]) : lastScript tx=script := by
  rw [lastScript,h,List.getLast?_concat]
  rfl

/-- Import data behind coin payouts. -/
theorem importParts_coin {payouts : List CTxOut} {importData : List UInt8} {tx : CTransaction}
    (hcoin : opretData (lastPayout payouts)=[]) (hhead : importData.head?=some EVAL_IMPORTCOIN)
    (hlen : importData.length<2^32) (hvout : tx.vout=importVouts payouts importData) :
    ImportNode.importParts tx=some (payouts,importData) := by
  obtain ⟨data,rfl⟩ : ∃data,importData=EVAL_IMPORTCOIN::data := by
    cases importData with
    | nil => cases hhead
    | cons b data => exact ⟨data,by rw [Option.some.inj hhead]⟩
  have hout : tx.vout=payouts++[⟨0,0x6a::pushData (EVAL_IMPORTCOIN::data)⟩] := by
    rw [hvout,importVouts]
    exact if_pos hcoin
  have hopret : opretData (lastScript tx)=EVAL_IMPORTCOIN::data := by
    rw [lastScript_concat hout]
    exact opretData_pushData (List.cons_ne_nil _ _) hlen
  unfold ImportNode.importParts
  rw [hopret]
  dsimp only
  rw [if_neg (by decide),hout,List.dropLast_concat]

/-- The op_return of a token with the import data. -/
def withImportData (create : TokenCreate) (importData : List UInt8) : TokenCreate :=
  {create with oprets := create.oprets++[(OPRETID_IMPORTDATA,importData)]}

/-- Import data in the op_return of a token: taking them out leaves the data that were
decoded, as they are encoded. -/
theorem importParts_token {payouts : List CTxOut} {importData : List UInt8} {tx : CTransaction}
    {create : TokenCreate} (hcreate : decodeTokenCreateOpRet (lastPayout payouts)=some create)
    (hplain : ∀o∈create.oprets,o.1≠OPRETID_IMPORTDATA) (hdata : importData.length≤MAX_SIZE)
    (hlen : (tokenCreateData (withImportData create importData)).length<2^32)
    (hvout : tx.vout=importVouts payouts importData) :
    ImportNode.importParts tx=
      some (payouts.dropLast++[⟨0,encodeTokenCreateOpRet create⟩],importData) := by
  have hsized := TokenCreate.sized_of_decode hcreate
  have hwith : (withImportData create importData).Sized :=
    ⟨hsized.origpubkey,hsized.name,hsized.description,
      List.forall_mem_append.mpr ⟨hsized.oprets,List.forall_mem_singleton.mpr hdata⟩⟩
  obtain ⟨hopret,hdecode⟩ := decode_encodeTokenCreateOpRet hwith hlen
  have hout : tx.vout=payouts.dropLast++
      [⟨0,encodeTokenCreateOpRet (withImportData create importData)⟩] := by
    have hsome : opretData (lastPayout payouts)≠[] := by
      intro hnil
      rw [decodeTokenCreateOpRet,hnil] at hcreate
      cases hcreate
    have hscript : (payouts.getLast?.map CTxOut.scriptPubKey).getD []=lastPayout payouts := rfl
    rw [hvout,importVouts,hscript,if_neg hsome,hcreate]
    rfl
  have hfilter : (withImportData create importData).oprets.filter (·.1≠0)=
      create.oprets.filter (·.1≠0)++[(OPRETID_IMPORTDATA,importData)] := by
    rw [withImportData,List.filter_append]
    rfl
  have hother : ∀o∈create.oprets.filter (·.1≠0),o.1≠OPRETID_IMPORTDATA :=
    fun o ho => hplain o (List.mem_of_mem_filter ho)
  have herase : (create.oprets.filter (·.1≠0)++[(OPRETID_IMPORTDATA,importData)]).eraseP
      (·.1=OPRETID_IMPORTDATA)=create.oprets.filter (·.1≠0) := by
    rw [List.eraseP_append_right _ fun o ho => by simpa using hother o ho]
    exact List.append_nil _
  have hblob : getOpretBlob (create.oprets.filter (·.1≠0)++[(OPRETID_IMPORTDATA,importData)])
      OPRETID_IMPORTDATA=importData := by
    have hnone : (create.oprets.filter (·.1≠0)).find? (fun p => p.1==OPRETID_IMPORTDATA)=none :=
      List.find?_eq_none.mpr fun o ho => by simpa using hother o ho
    rw [getOpretBlob,List.find?_append,hnone]
    rfl
  have hencode : encodeTokenCreateOpRet {create with oprets := create.oprets.filter (·.1≠0)}=
      encodeTokenCreateOpRet create := by
    simp only [encodeTokenCreateOpRet,List.filter_filter,Bool.and_self]
  unfold ImportNode.importParts
  rw [lastScript_concat hout,hopret]
  change (if EVAL_TOKENS=EVAL_TOKENS then _ else _)=_
  rw [if_pos rfl,hdecode,Option.map_some,hfilter,hout,List.dropLast_concat]
  simp only [withImportData,herase,hblob,hencode]

theorem unmarshal_makeImport {N : PayloadNode} {proof : ImportProof} {burnTx : Wire.CTransaction}
    {e : List Byte} {payouts restored : List CTxOut} {importData : List UInt8}
    (hproof : ProofSized proof) (hburn : OnWire N.serializeHash burnTx e) (hne : payouts≠[])
    (hdata : marshalImport proof burnTx=some importData)
    (hparts : ∀tx : CTransaction,tx.vout=importVouts payouts importData →
      ImportNode.importParts tx=some (restored,importData)) (nExpiryHeightOverride : Nat) :
    ∃importTx,N.makeImportCoinTransaction proof burnTx payouts nExpiryHeightOverride=some importTx ∧
      N.unmarshalImportTx importTx=some (proofBack proof,burnTx,restored) := by
  unfold PayloadNode.makeImportCoinTransaction
  dsimp only
  rw [if_neg hne,hdata,Option.map_some]
  refine ⟨_,rfl,?_⟩
  generalize htx : CTransaction.mk _ _ _ _ _ _ _ _ _ _ _=tx
  have hvin : tx.vin=[⟨⟨burnTx.hash,CTransaction.importMarker⟩,pushData [EVAL_IMPORTCOIN]⟩] := by
    rw [← htx]
  have hsplit := hparts tx (by rw [← htx])
  have hvout : tx.vout≠[] := by
    intro hnil
    unfold ImportNode.importParts at hsplit
    rw [lastScript,hnil] at hsplit
    cases hsplit
  have hinput : ¬((tx.isPegsImport N.pegscc=false ∧ tx.vin.length≠1) ∨
      tx.vin.head?.map CTxIn.scriptSig≠some (pushData [EVAL_IMPORTCOIN])) := by
    rw [hvin]
    rintro (⟨-,h⟩ | h)
    · exact h rfl
    · exact h rfl
  unfold PayloadNode.unmarshalImportTx
  rw [if_neg hvout,if_neg hinput,hsplit]
  dsimp only
  rw [(unmarshal_marshalImport hproof hburn hdata).2]
  rfl

end Import

section Burn

/-- The keys that a `CPubKey` can hold: as long as the first byte says, or invalid. -/
def IsPubKey (key : CPubKey) : Prop := ∀chHeader∈key.head?,key.length=pubKeyLen chHeader

/-- The fields of a burn for a gateway. -/
structure GatewayBurn where
  bindtxid : Uint256
  publishers : List CPubKey
  txids : List Uint256
  burntxid : Uint256
  height : BitVec 32
  burnvout : BitVec 32
  rawburntx : List UInt8
  destpub : CPubKey
  amount : BitVec 64
  deriving DecidableEq

/-- The fields of a burn for CODA. -/
structure CodaBurn where
  srcaddr : List UInt8
  receipt : List UInt8
  deriving DecidableEq

/-- The fields of a burn for Pegs. -/
structure PegsBurn where
  pegstxid : Uint256
  tokenid : Uint256
  srcpub : CPubKey
  amount : BitVec 64
  account : BitVec 64 × BitVec 64
  deriving DecidableEq

/-- What every burn is written with. -/
structure BurnHead where
  targetCCid : BitVec 32
  targetSymbol : List UInt8
  payoutsHash : Uint256
  rawproof : List UInt8
  deriving DecidableEq

def BurnHead.write (head : BurnHead) : List Byte :=
  EVAL_IMPORTCOIN.toBitVec::(writeVarInt 32 head.targetCCid.toNat++writeBytes head.targetSymbol++
    toBytes head.payoutsHash++writeBytes head.rawproof)

def GatewayBurn.write (b : GatewayBurn) : List Byte :=
  toBytes b.bindtxid++writeVector writeBytes b.publishers++writeVector toBytes b.txids++
    toBytes b.burntxid++toBytes b.height++toBytes b.burnvout++writeBytes b.rawburntx++
    writeBytes b.destpub++toBytes b.amount

def CodaBurn.write (b : CodaBurn) : List Byte := writeBytes b.srcaddr++writeBytes b.receipt

def PegsBurn.write (b : PegsBurn) : List Byte :=
  toBytes b.pegstxid++toBytes b.tokenid++writeBytes b.srcpub++toBytes b.amount++
    toBytes b.account.1++toBytes b.account.2

/-- `CScript() << OP_RETURN << opret`. -/
def burnOutput (value : Int) (opret : List Byte) : CTxOut :=
  ⟨value,0x6a::pushData (opret.map UInt8.ofBitVec)⟩

section Make

variable (serializeHash : List CTxOut → Uint256) (value : Int) (targetCCid : BitVec 32)
  (targetSymbol : List UInt8) (payouts : List CTxOut) (rawproof : List UInt8)

def burnHead : BurnHead := ⟨targetCCid,targetSymbol,serializeHash payouts,rawproof⟩

def makeBurnOutput : CTxOut :=
  burnOutput value (burnHead serializeHash targetCCid targetSymbol payouts rawproof).write

def makeBurnOutputGateway (b : GatewayBurn) : CTxOut :=
  burnOutput value ((burnHead serializeHash targetCCid targetSymbol payouts rawproof).write++b.write)

def makeBurnOutputCoda (b : CodaBurn) : CTxOut :=
  burnOutput value ((burnHead serializeHash targetCCid targetSymbol payouts rawproof).write++b.write)

def makeBurnOutputPegs (b : PegsBurn) : CTxOut :=
  burnOutput value ((burnHead serializeHash targetCCid targetSymbol payouts rawproof).write++b.write)

end Make

def readGatewayBurn (stray : List UInt8) : Reader GatewayBurn := do
  let _ ← readBurnOpRet
  let bindtxid ← Reader.word 256
  let publishers ← readVector (readPubKey stray)
  let txids ← readVector (Reader.word 256)
  let burntxid ← Reader.word 256
  let height ← Reader.word 32
  let burnvout ← Reader.word 32
  let rawburntx ← readVector8
  let destpub ← readPubKey stray
  let amount ← Reader.word 64
  return ⟨bindtxid,publishers,txids,burntxid,height,burnvout,rawburntx,destpub,amount⟩

def readCodaBurn : Reader CodaBurn := do
  let _ ← readBurnOpRet
  let srcaddr ← readVector8
  let receipt ← readVector8
  return ⟨srcaddr,receipt⟩

def readPegsBurn (stray : List UInt8) : Reader PegsBurn := do
  let _ ← readBurnOpRet
  let pegstxid ← Reader.word 256
  let tokenid ← Reader.word 256
  let srcpub ← readPubKey stray
  let amount ← Reader.word 64
  let debit ← Reader.word 64
  let credit ← Reader.word 64
  return ⟨pegstxid,tokenid,srcpub,amount,(debit,credit)⟩

/-- A variant of `UnmarshalBurnTx` that reads to the end of the op_return. -/
def unmarshalBurn {α : Type} (read : Reader α) (burnTx : CTransaction) : Option α :=
  if burnTx.vout=[] then none else unmarshal8 read (opretData (lastScript burnTx))

namespace World

variable (W : World) (burnTx : CTransaction)

def unmarshalBurnTxGateway : Option GatewayBurn := unmarshalBurn (readGatewayBurn W.strayPk) burnTx

def unmarshalBurnTxPegs : Option PegsBurn := unmarshalBurn (readPegsBurn W.strayPk) burnTx

end World

def unmarshalBurnTxCoda (burnTx : CTransaction) : Option CodaBurn :=
  unmarshalBurn readCodaBurn burnTx

/-- What the common `UnmarshalBurnTx` gets of a head. -/
def BurnHead.read (head : BurnHead) : BurnOpRet :=
  ⟨head.targetCCid.toNat,textOf head.targetSymbol,head.payoutsHash,head.rawproof⟩

structure BurnHead.Sized (head : BurnHead) : Prop where
  targetSymbol : head.targetSymbol.length≤MAX_SIZE
  rawproof : head.rawproof.length≤MAX_SIZE

structure GatewayBurn.Sized (b : GatewayBurn) : Prop where
  publishers : b.publishers.length≤MAX_SIZE
  keys : ∀key∈b.publishers,IsPubKey key
  txids : b.txids.length≤MAX_SIZE
  rawburntx : b.rawburntx.length≤MAX_SIZE
  destpub : IsPubKey b.destpub

structure CodaBurn.Sized (b : CodaBurn) : Prop where
  srcaddr : b.srcaddr.length≤MAX_SIZE
  receipt : b.receipt.length≤MAX_SIZE

theorem IsPubKey.length_le {key : CPubKey} (h : IsPubKey key) : key.length≤65 := by
  cases key with
  | nil => exact Nat.zero_le _
  | cons chHeader vch =>
    rw [h chHeader rfl]
    unfold pubKeyLen
    split_ifs <;> decide

theorem reads_pubKey {key : CPubKey} (h : IsPubKey key) (stray : List UInt8) :
    Reads (readPubKey stray) (writeBytes key) key := by
  have hlen := h.length_le
  have hread := reads_bytes8 (v := key) (by unfold MAX_SIZE; omega)
  rw [← List.append_nil (writeBytes key)]
  refine hread.bind ?_
  cases key with
  | nil => exact Reads.pure []
  | cons chHeader vch =>
    dsimp only
    rw [if_pos hlen,← h chHeader rfl,List.take_left]
    exact Reads.pure _

theorem reads_burnHead {head : BurnHead} (h : head.Sized) :
    Reads readBurnOpRet head.write head.read := by
  unfold BurnHead.write
  rw [List.append_assoc,List.append_assoc]
  refine (reads_uint8 EVAL_IMPORTCOIN).bind ?_
  refine (reads_varInt (by decide) head.targetCCid.isLt).bind ?_
  refine (reads_bytes8 h.targetSymbol).bind ?_
  refine (Reads.word (by decide) head.payoutsHash).bind ?_
  exact (reads_bytes8 h.rawproof).map fun rawproof =>
    (⟨head.targetCCid.toNat,textOf head.targetSymbol,head.payoutsHash,rawproof⟩ : BurnOpRet)

theorem reads_gatewayBurn {head : BurnHead} {b : GatewayBurn} (hhead : head.Sized) (h : b.Sized)
    (stray : List UInt8) : Reads (readGatewayBurn stray) (head.write++b.write) b := by
  unfold GatewayBurn.write
  simp only [List.append_assoc]
  refine (reads_burnHead hhead).bind ?_
  refine (Reads.word (by decide) b.bindtxid).bind ?_
  refine (reads_vector h.publishers fun key hkey => reads_pubKey (h.keys key hkey) stray).bind ?_
  refine (reads_txids h.txids).bind ?_
  refine (Reads.word (by decide) b.burntxid).bind ?_
  refine (Reads.word (by decide) b.height).bind ?_
  refine (Reads.word (by decide) b.burnvout).bind ?_
  refine (reads_bytes8 h.rawburntx).bind ?_
  refine (reads_pubKey h.destpub stray).bind ?_
  exact (Reads.word (by decide) b.amount).map fun amount => (⟨b.bindtxid,b.publishers,b.txids,
    b.burntxid,b.height,b.burnvout,b.rawburntx,b.destpub,amount⟩ : GatewayBurn)

theorem reads_codaBurn {head : BurnHead} {b : CodaBurn} (hhead : head.Sized) (h : b.Sized) :
    Reads readCodaBurn (head.write++b.write) b := by
  refine (reads_burnHead hhead).bind ?_
  refine (reads_bytes8 h.srcaddr).bind ?_
  exact (reads_bytes8 h.receipt).map fun receipt => (⟨b.srcaddr,receipt⟩ : CodaBurn)

theorem reads_pegsBurn {head : BurnHead} {b : PegsBurn} (hhead : head.Sized)
    (h : IsPubKey b.srcpub) (stray : List UInt8) :
    Reads (readPegsBurn stray) (head.write++b.write) b := by
  unfold PegsBurn.write
  simp only [List.append_assoc]
  refine (reads_burnHead hhead).bind ?_
  refine (Reads.word (by decide) b.pegstxid).bind ?_
  refine (Reads.word (by decide) b.tokenid).bind ?_
  refine (reads_pubKey h stray).bind ?_
  refine (Reads.word (by decide) b.amount).bind ?_
  refine (Reads.word (by decide) b.account.1).bind ?_
  exact (Reads.word (by decide) b.account.2).map fun credit =>
    (⟨b.pegstxid,b.tokenid,b.srcpub,b.amount,(b.account.1,credit)⟩ : PegsBurn)

theorem length_varIntDigits (slots : Nat) (len : Bool) (n : Int) :
    (varIntDigits slots len n).length ≤ slots := by
  induction slots generalizing len n with
  | zero => exact Nat.le_refl 0
  | succ slots ih =>
    rw [varIntDigits,List.length_cons]
    split_ifs
    · exact Nat.succ_le_succ (Nat.zero_le slots)
    · exact Nat.succ_le_succ (ih true _)

theorem length_writeVector {α : Type} {write : α → List Byte} {v : List α} {c : Nat}
    (h : ∀a∈v,(write a).length ≤ c) : (writeVector write v).length≤9+v.length*c := by
  have hsize := length_writeCompactSize v.length
  have hitems : (v.flatMap write).length≤v.length*c := by
    have hsum := List.sum_le_card_nsmul (v.map fun a => (write a).length) c (by simpa using h)
    rw [List.length_flatMap]
    rwa [List.length_map] at hsum
  rw [writeVector,List.length_append]
  omega

theorem BurnHead.length_write {head : BurnHead} (h : head.Sized) :
    head.write.length≤2*MAX_SIZE+56 := by
  have hid := length_varIntDigits ((32+6)/7) false head.targetCCid.toNat
  have hsymbol := (length_writeBytes head.targetSymbol).2
  have hproof := (length_writeBytes head.rawproof).2
  have hs := h.targetSymbol
  have hr := h.rawproof
  simp only [BurnHead.write,writeVarInt,List.length_cons,List.length_append,List.length_reverse,
    length_toBytes]
  omega

theorem GatewayBurn.length_write {b : GatewayBurn} (h : b.Sized) :
    b.write.length≤107*MAX_SIZE+190 := by
  have hkey : ∀key : CPubKey,IsPubKey key → (writeBytes key).length≤74 := by
    intro key hkey
    have hbytes := (length_writeBytes key).2
    have hlen := hkey.length_le
    omega
  have hpublishers := length_writeVector fun key hmem => hkey key (h.keys key hmem)
  have htxids : (writeVector toBytes b.txids).length≤9+b.txids.length*32 :=
    length_writeVector fun txid _ => by rw [length_toBytes]
  have hdestpub := hkey b.destpub h.destpub
  have hraw := (length_writeBytes b.rawburntx).2
  have hp := h.publishers
  have ht := h.txids
  have hr := h.rawburntx
  simp only [GatewayBurn.write,List.length_append,length_toBytes]
  omega

theorem CodaBurn.length_write {b : CodaBurn} (h : b.Sized) : b.write.length≤2*MAX_SIZE+18 := by
  have hsrcaddr := (length_writeBytes b.srcaddr).2
  have hreceipt := (length_writeBytes b.receipt).2
  have hs := h.srcaddr
  have hr := h.receipt
  simp only [CodaBurn.write,List.length_append]
  omega

theorem PegsBurn.length_write {b : PegsBurn} (h : IsPubKey b.srcpub) : b.write.length≤162 := by
  have hkey := (length_writeBytes b.srcpub).2
  have hlen := h.length_le
  simp only [PegsBurn.write,List.length_append,length_toBytes]
  omega

/-- The last output of the transaction is a burn with this op_return. -/
theorem opretData_burnOutput {tx : CTransaction} {value : Int} {opret : List Byte} (hne : opret≠[])
    (hlen : opret.length<2^32) (htx : tx.vout.getLast?=some (burnOutput value opret)) :
    tx.vout≠[] ∧ opretData (lastScript tx)=opret.map UInt8.ofBitVec := by
  constructor
  · intro hnil
    rw [hnil] at htx
    cases htx
  · rw [lastScript,htx]
    exact opretData_pushData (by simpa using hne) (by rwa [List.length_map])

theorem unmarshalBurn_of_reads {α : Type} {read : Reader α} {a : α} {tx : CTransaction}
    {value : Int} {opret : List Byte} (hread : Reads read opret a) (hne : opret≠[])
    (hlen : opret.length<2^32) (htx : tx.vout.getLast?=some (burnOutput value opret)) :
    unmarshalBurn read tx=some a := by
  obtain ⟨hvout,hdata⟩ := opretData_burnOutput hne hlen htx
  rw [unmarshalBurn,if_neg hvout,hdata,unmarshal8_of_reads hread]

/-- The common fields are read whatever follows them. -/
theorem unmarshalBurnTx_head {W : World} {head : BurnHead} (h : head.Sized) {extra : List Byte}
    {tx : CTransaction} {value : Int} (hlen : (head.write++extra).length<2^32)
    (htx : tx.vout.getLast?=some (burnOutput value (head.write++extra))) :
    W.unmarshalBurnTx tx=some head.read := by
  obtain ⟨-,hdata⟩ := opretData_burnOutput (List.cons_ne_nil _ _) hlen htx
  have hdecode : decodeBurnOpRet ((head.write++extra).map UInt8.ofBitVec)=some head.read := by
    have hfirst : ((head.write++extra).map UInt8.ofBitVec).head?=some EVAL_IMPORTCOIN := rfl
    rw [decodeBurnOpRet,if_pos hfirst,map_toBitVec_ofBitVec,reads_burnHead h extra]
    rfl
  rw [← hdecode]
  unfold World.unmarshalBurnTx
  rw [hdata]
  rfl

end Burn

section Short

/-- The bytes of a number: all but the last one carry the continuation bit. -/
def IsVarInt (d : List Byte) : Prop :=
  ∃ds b,d=ds++[b] ∧ (∀c∈ds,128 ≤ c.toNat) ∧ b.toNat<128

/-- The data have all the fields of a burn in front. -/
def HoldsBurn (v : List UInt8) : Prop :=
  ∃targetCCid targetSymbol rawproof rest,∃payoutsHash : Uint256,IsVarInt targetCCid ∧
    v.map UInt8.toBitVec=EVAL_IMPORTCOIN.toBitVec::(targetCCid++writeBytes targetSymbol++
      toBytes payoutsHash++writeBytes rawproof++rest)

theorem readVarIntLoop_spec {w : Nat} {bs rest : List Byte} {n m : Nat}
    (h : readVarIntLoop w n bs=some (m,rest)) :
    ∃d,bs=d++rest ∧ IsVarInt d ∧ Reads (readVarIntLoop w n) d m := by
  induction bs generalizing n with
  | nil => cases h
  | cons c bs ih =>
    rw [readVarIntLoop] at h
    split_ifs at h with hc
    · obtain ⟨d,rfl,⟨ds,b,rfl,hds,hb⟩,hread⟩ := ih h
      refine ⟨c::(ds++[b]),rfl,⟨c::ds,b,rfl,List.forall_mem_cons.mpr ⟨hc,hds⟩,hb⟩,?_⟩
      intro rest
      rw [List.cons_append,readVarIntLoop,if_pos hc,hread]
    · obtain ⟨rfl,rfl⟩ := Prod.mk.inj (Option.some.inj h)
      refine ⟨[c],rfl,⟨[],c,rfl,List.forall_mem_nil _,by omega⟩,?_⟩
      intro rest
      rw [List.singleton_append,readVarIntLoop,if_neg hc]

theorem local_burnOpRet : readBurnOpRet.Local := by
  refine local_uint8.bind fun _ => ?_
  refine Reader.Local.bind ?_ fun targetCCid => ?_
  · intro bs n rest h
    obtain ⟨d,hbs,-,hread⟩ := readVarIntLoop_spec h
    exact ⟨d,hbs,hread⟩
  refine local_vector8.bind fun targetSymbol => ?_
  refine (Reader.Local.of_codec (Codec.word 256 (by decide))).bind fun payoutsHash => ?_
  exact local_vector8.bind fun rawproof => Reader.Local.pure _

theorem holdsBurn_of_decode {v : List UInt8} {b : BurnOpRet} (h : decodeBurnOpRet v=some b) :
    HoldsBurn v := by
  unfold decodeBurnOpRet at h
  split_ifs at h with hhead
  obtain ⟨⟨_,rest⟩,hread,-⟩ := Option.map_eq_some_iff.mp h
  obtain ⟨data,rfl⟩ : ∃data,v=EVAL_IMPORTCOIN::data := by
    cases v with
    | nil => cases hhead
    | cons b data => exact ⟨data,by rw [Option.some.inj hhead]⟩
  obtain ⟨_,_,hcode,hread⟩ := Reader.bind_eq_some hread
  obtain ⟨_,_,hid,hread⟩ := Reader.bind_eq_some hread
  obtain ⟨symbol,_,hsymbol,hread⟩ := Reader.bind_eq_some hread
  obtain ⟨payoutsHash,_,hhash,hread⟩ := Reader.bind_eq_some hread
  obtain ⟨rawproof,left,hproof,-⟩ := Reader.bind_eq_some hread
  obtain ⟨-,rfl⟩ := Prod.mk.inj (Option.some.inj hcode)
  obtain ⟨d,hbs,hd,-⟩ := readVarIntLoop_spec hid
  obtain ⟨-,rfl⟩ := readVector8_eq_some hsymbol
  obtain ⟨_,hword,rfl⟩ := (Codec.word 256 (by decide)).write_read hhash
  obtain rfl := Option.some.inj hword
  obtain ⟨-,rfl⟩ := readVector8_eq_some hproof
  refine ⟨d,symbol,rawproof,left,payoutsHash,hd,?_⟩
  rw [List.map_cons,hbs]
  simp only [List.append_assoc]

theorem HoldsBurn.length_le {v : List UInt8} (h : HoldsBurn v) : 36≤v.length := by
  obtain ⟨d,symbol,rawproof,rest,payoutsHash,⟨ds,b,rfl,-⟩,hv⟩ := h
  have hlen := congrArg List.length hv
  have hsymbol := (length_writeBytes symbol).1
  have hproof := (length_writeBytes rawproof).1
  simp only [List.length_map,List.length_cons,List.length_append,List.length_nil,
    length_toBytes] at hlen
  omega

/-- The data that the common `UnmarshalBurnTx` reads: the op_return, or the burn data in
the op_return of a token. -/
def World.burnData (W : World) (burnTx : CTransaction) : List UInt8 :=
  match opretData (lastScript burnTx) with
  | [] => []
  | evalcode::data =>
      if evalcode=EVAL_TOKENS then
        match decodeTokenOpRet W.strayPk (lastScript burnTx) with
        | none => []
        | some r => if r.funcId=chr 't' then getOpretBlob r.oprets OPRETID_BURNDATA else []
      else evalcode::data

theorem World.unmarshalBurnTx_eq (W : World) (burnTx : CTransaction) :
    W.unmarshalBurnTx burnTx=decodeBurnOpRet (W.burnData burnTx) := by
  unfold World.unmarshalBurnTx World.burnData
  cases opretData (lastScript burnTx) with
  | nil => rfl
  | cons evalcode data =>
    dsimp only
    split_ifs
    · cases decodeTokenOpRet W.strayPk (lastScript burnTx) with
      | none => rfl
      | some r =>
        dsimp only
        split_ifs
        · rfl
        · rfl
    · rfl

/-- The fields of a burn cut off anywhere. -/
theorem decodeBurnOpRet_cut {head : BurnHead} (h : head.Sized) {v : List UInt8} {rest : List Byte}
    (hcut : v.map UInt8.toBitVec++rest=head.write) (hrest : rest≠[]) : decodeBurnOpRet v=none := by
  have hread := reads_burnHead h
  rw [← hcut] at hread
  rw [decodeBurnOpRet,local_burnOpRet.not_of_cut hread hrest]
  split_ifs
  · rfl
  · rfl

end Short

section RoundTrip

theorem textOf_injective {s s' : List UInt8} (h : textOf s=textOf s') : s=s' := by
  have hchars : s.map (fun b => Char.ofNat b.toNat)=s'.map fun b => Char.ofNat b.toNat := by
    have htoList := congrArg String.toList h
    rwa [textOf,textOf,String.toList_ofList,String.toList_ofList] at htoList
  refine List.map_injective_iff.mpr ?_ hchars
  intro a b hab
  have hvalid : ∀c : UInt8,(Char.ofNat c.toNat).toNat=c.toNat := by
    intro c
    have hlt : c.toNat<256 := c.toNat_lt
    rw [Char.ofNat,dif_pos (.inl (by omega))]
    rfl
  have hnat := congrArg Char.toNat hab
  simp only [hvalid] at hnat
  exact UInt8.toNat_inj.mp hnat

theorem dropLast_concat_eq_iff {α : Type} {l : List α} {a : α} :
    l.dropLast++[a]=l ↔ l.getLast?=some a := by
  constructor
  · intro h
    rw [← h,List.getLast?_concat]
  · exact fun h => List.dropLast_append_getLast? a h

/-- The common fields and those of one kind of burn are read back from the same output. -/
theorem unmarshalBurn_both {α : Type} {W : World} {head : BurnHead} (h : head.Sized)
    {extra : List Byte} (hextra : extra.length≤107*MAX_SIZE+190) {read : Reader α} {b : α}
    (hread : Reads read (head.write++extra) b) {tx : CTransaction} {value : Int}
    (htx : tx.vout.getLast?=some (burnOutput value (head.write++extra))) :
    W.unmarshalBurnTx tx=some head.read ∧ unmarshalBurn read tx=some b := by
  have hlen := BurnHead.length_write h
  have hmax : MAX_SIZE=33554432 := rfl
  have hshort : (head.write++extra).length<2^32 := by
    rw [List.length_append]
    omega
  exact ⟨unmarshalBurnTx_head h hshort htx,
    unmarshalBurn_of_reads hread (List.cons_ne_nil _ _) hshort htx⟩

/-- Nothing is read from data without all the common fields. -/
theorem unmarshalBurnTx_none {W : World} {tx : CTransaction}
    (hshort : ¬HoldsBurn (W.burnData tx) ∨ (W.burnData tx).length<36 ∨
      (∃head : BurnHead,head.Sized ∧ ∃rest,rest≠[] ∧
        (W.burnData tx).map UInt8.toBitVec++rest=head.write)) : W.unmarshalBurnTx tx=none := by
  rw [W.unmarshalBurnTx_eq]
  cases hdecode : decodeBurnOpRet (W.burnData tx) with
  | none => rfl
  | some b =>
    have hholds := holdsBurn_of_decode hdecode
    rcases hshort with hnot | hlen | ⟨head,hsized,rest,hrest,hcut⟩
    · exact absurd hholds hnot
    · exact absurd hholds.length_le (by omega)
    · rw [decodeBurnOpRet_cut hsized hcut hrest] at hdecode
      cases hdecode

/-- Imports are restored if the index of the proof is not negative and the op_return of a
token is the encoding of its fields in an output without value. Each kind of burn is read
back, and nothing is read from data without all the common fields. -/
theorem payloads_restored (W : World) (N : PayloadNode) (serializeHash : List CTxOut → Uint256) :
    (∀(proof : ImportProof) (burnTx : Wire.CTransaction) (e : List Byte) (payouts : List CTxOut)
      (importData : List UInt8) (nExpiryHeightOverride : Nat),ProofSized proof →
      OnWire N.serializeHash burnTx e → payouts≠[] → marshalImport proof burnTx=some importData →
      (opretData (lastPayout payouts)=[] → importData.length<2^32 →
        ∃importTx,N.makeImportCoinTransaction proof burnTx payouts nExpiryHeightOverride=
            some importTx ∧
          (N.unmarshalImportTx importTx=some (proof,burnTx,payouts) ↔ ProofIndexed proof)) ∧
      ∀create,decodeTokenCreateOpRet (lastPayout payouts)=some create →
        (∀o∈create.oprets,o.1≠OPRETID_IMPORTDATA) → importData.length≤MAX_SIZE →
        (tokenCreateData (withImportData create importData)).length<2^32 →
        ∃importTx,N.makeImportCoinTransaction proof burnTx payouts nExpiryHeightOverride=
            some importTx ∧
          (N.unmarshalImportTx importTx=some (proof,burnTx,payouts) ↔ ProofIndexed proof ∧
            payouts.getLast?=some ⟨0,encodeTokenCreateOpRet create⟩)) ∧
    (∀(value : Int) (targetCCid : BitVec 32) (targetSymbol : List UInt8) (payouts : List CTxOut)
      (rawproof : List UInt8),targetSymbol.length≤MAX_SIZE → rawproof.length≤MAX_SIZE →
      ∀tx : CTransaction,
        (tx.vout.getLast?=some
            (makeBurnOutput serializeHash value targetCCid targetSymbol payouts rawproof) →
          W.unmarshalBurnTx tx=
            some ⟨targetCCid.toNat,textOf targetSymbol,serializeHash payouts,rawproof⟩) ∧
        (∀b : GatewayBurn,b.Sized → tx.vout.getLast?=some
            (makeBurnOutputGateway serializeHash value targetCCid targetSymbol payouts rawproof b) →
          W.unmarshalBurnTx tx=
            some ⟨targetCCid.toNat,textOf targetSymbol,serializeHash payouts,rawproof⟩ ∧
          W.unmarshalBurnTxGateway tx=some b) ∧
        (∀b : CodaBurn,b.Sized → tx.vout.getLast?=some
            (makeBurnOutputCoda serializeHash value targetCCid targetSymbol payouts rawproof b) →
          W.unmarshalBurnTx tx=
            some ⟨targetCCid.toNat,textOf targetSymbol,serializeHash payouts,rawproof⟩ ∧
          unmarshalBurnTxCoda tx=some b) ∧
        ∀b : PegsBurn,IsPubKey b.srcpub → tx.vout.getLast?=some
            (makeBurnOutputPegs serializeHash value targetCCid targetSymbol payouts rawproof b) →
          W.unmarshalBurnTx tx=
            some ⟨targetCCid.toNat,textOf targetSymbol,serializeHash payouts,rawproof⟩ ∧
          W.unmarshalBurnTxPegs tx=some b) ∧
    (∀s s' : List UInt8,textOf s=textOf s' → s=s') ∧
    ∀tx : CTransaction,
      (¬HoldsBurn (W.burnData tx) ∨ (W.burnData tx).length<36 ∨
        (∃head : BurnHead,head.Sized ∧ ∃rest,rest≠[] ∧
          (W.burnData tx).map UInt8.toBitVec++rest=head.write)) →
      W.unmarshalBurnTx tx=none := by
  refine ⟨?_,?_,fun s s' => textOf_injective,fun tx => unmarshalBurnTx_none⟩
  · intro proof burnTx e payouts importData nExpiryHeightOverride hproof hburn hne hdata
    have hhead := (unmarshal_marshalImport hproof hburn hdata).1
    constructor
    · intro hcoin hlen
      obtain ⟨importTx,hmake,hback⟩ := unmarshal_makeImport hproof hburn hne hdata
        (fun tx => importParts_coin hcoin hhead hlen) nExpiryHeightOverride
      refine ⟨importTx,hmake,?_⟩
      rw [hback,← proofBack_eq_iff]
      simp
    · intro create hcreate hplain hmax hlen
      obtain ⟨importTx,hmake,hback⟩ := unmarshal_makeImport hproof hburn hne hdata
        (fun tx => importParts_token hcreate hplain hmax hlen) nExpiryHeightOverride
      refine ⟨importTx,hmake,?_⟩
      rw [hback,← proofBack_eq_iff,← dropLast_concat_eq_iff]
      simp
  · intro value targetCCid targetSymbol payouts rawproof hsymbol hproof tx
    have hhead : (burnHead serializeHash targetCCid targetSymbol payouts rawproof).Sized :=
      ⟨hsymbol,hproof⟩
    have hmax : MAX_SIZE=33554432 := rfl
    refine ⟨?_,?_,?_,?_⟩
    · intro htx
      have hlen := BurnHead.length_write hhead
      rw [makeBurnOutput,← List.append_nil (BurnHead.write _)] at htx
      exact unmarshalBurnTx_head hhead (by rw [List.append_nil]; omega) htx
    · intro b hb htx
      have hread := reads_gatewayBurn hhead hb W.strayPk
      exact unmarshalBurn_both hhead (GatewayBurn.length_write hb) hread htx
    · intro b hb htx
      have hlen := CodaBurn.length_write hb
      exact unmarshalBurn_both hhead (by omega) (reads_codaBurn hhead hb) htx
    · intro b hb htx
      have hlen := PegsBurn.length_write hb
      exact unmarshalBurn_both hhead (by omega) (reads_pegsBurn hhead hb W.strayPk) htx

/-- A node whose hashes are all null, at a height without upgrades. -/
def plainNode : PayloadNode := ⟨fun _ => 0,fun _ => 0,⟨false,-1,-1,20⟩,100,false⟩

theorem onWire_saplingExample :
    OnWire (fun _ => 0) Wire.saplingExample Wire.saplingExampleBytes := by
  have hv4 : Wire.saplingExample.v4=true := by decide
  refine ⟨.inr (.inr hv4),?_,?_,by decide +kernel,rfl⟩
  · exact ⟨by decide,by simp [hv4],by simp [hv4],fun _ => rfl,fun _ => ⟨rfl,rfl⟩,fun _ => rfl⟩
  · exact ⟨by decide,by decide,by decide,by decide,by decide⟩

/-- One coin output without an op_return. -/
def coinPayouts : List CTxOut := [⟨7,[0x51]⟩]

def branchProof (nIndex : Int) : ImportProof := .merkleBranch (3,⟨nIndex,[9]⟩)

def branchImportData : List UInt8 :=
  [0xe2,0x11,3]++List.replicate 31 0++[1,1,9]++List.replicate 31 0++
    Wire.saplingExampleBytes.map UInt8.ofBitVec

theorem coin_import_restored :
    opretData (lastPayout coinPayouts)=[] ∧
    ∃importTx,plainNode.makeImportCoinTransaction (branchProof 1) Wire.saplingExample coinPayouts 0=
        some importTx ∧
      (plainNode.unmarshalImportTx importTx=some (branchProof 1,Wire.saplingExample,coinPayouts) ↔
        ProofIndexed (branchProof 1)) := by
  have hcoin : opretData (lastPayout coinPayouts)=[] := by decide
  refine ⟨hcoin,?_⟩
  exact ((payloads_restored (World.ofKeys fun _ => none) plainNode fun _ => 0).1 (branchProof 1)
    Wire.saplingExample Wire.saplingExampleBytes coinPayouts branchImportData 0
    ⟨by decide,by decide,by decide⟩ onWire_saplingExample (by decide) (by decide +kernel)).1 hcoin
    (by decide)

/-- The script of a token creation with a one-byte name, and other forms of it: in a longer
push, and with data under the id 0. -/
def nameScript : List UInt8 := createScript 0x41

def longPushScript : List UInt8 := [0x6a,0x4c,6,0xf2,0x63,0,1,0x41,0]

def zeroIdScript : List UInt8 := [0x6a,9,0xf2,0x63,0,1,0x41,0,0,1,5]

/-- Not restored: a negative index, a value on the op_return of a token, a push that is
longer than needed and data under the id 0. -/
theorem import_not_restored :
    (plainNode.makeImportCoinTransaction (branchProof (-1)) Wire.saplingExample coinPayouts 0).bind
        plainNode.unmarshalImportTx=
      some (branchProof 127,Wire.saplingExample,coinPayouts) ∧
    (plainNode.makeImportCoinTransaction .none Wire.saplingExample [⟨5,nameScript⟩] 0).bind
        plainNode.unmarshalImportTx=some (.none,Wire.saplingExample,[⟨0,nameScript⟩]) ∧
    (plainNode.makeImportCoinTransaction .none Wire.saplingExample [⟨0,longPushScript⟩] 0).bind
        plainNode.unmarshalImportTx=some (.none,Wire.saplingExample,[⟨0,nameScript⟩]) ∧
    (plainNode.makeImportCoinTransaction .none Wire.saplingExample [⟨0,zeroIdScript⟩] 0).bind
        plainNode.unmarshalImportTx=some (.none,Wire.saplingExample,[⟨0,nameScript⟩]) ∧
    decodeTokenCreateOpRet nameScript=some ⟨[],[0x41],[],[]⟩ ∧
    decodeTokenCreateOpRet longPushScript=some ⟨[],[0x41],[],[]⟩ ∧
    decodeTokenCreateOpRet zeroIdScript=some ⟨[],[0x41],[],[(0,[5])]⟩ :=
  ⟨by decide +kernel,by decide +kernel,by decide +kernel,by decide +kernel,by decide +kernel,
    by decide +kernel,by decide +kernel⟩

end RoundTrip

end Zdeex.Cc
