import Zdeex.Cc.Assets
import Zdeex.Cc.ImportPayload

namespace Zdeex.Cc

open Zdeex.Framework
open Zdeex.Script
open Zdeex.Crosschain

section Definitions

/-- The payloads behind the head of a token op_return; data with id 0 are left out. -/
def writeOprets (oprets : Oprets) : List UInt8 :=
  (oprets.filter (·.1≠0)).flatMap fun o => o.1::writeVector8 o.2

def writeUint256 (x : Uint256) : List UInt8 := (toBytes x).map UInt8.ofBitVec

def writeInt64 (x : Int) : List UInt8 := (toBytes (BitVec.ofInt 64 x)).map UInt8.ofBitVec

/-- The type of a transfer is the number of its keys, 0 for more than two. -/
def ccTypeOf (voutPubkeys : List CPubKey) : UInt8 :=
  if voutPubkeys.length≤2 then UInt8.ofNat voutPubkeys.length else 0

def transferHead (tokenid : Uint256) (voutPubkeys : List CPubKey) : List UInt8 :=
  [EVAL_TOKENS,chr 't']++(writeUint256 (revuint256 tokenid)++([ccTypeOf voutPubkeys]++
    ((if 1 ≤ ccTypeOf voutPubkeys then writeVector8 (voutPubkeys.getD 0 []) else [])++
      (if ccTypeOf voutPubkeys=2 then writeVector8 (voutPubkeys.getD 1 []) else []))))

/-- `EncodeTokenOpRet`. -/
def encodeTokenOpRet (tokenid : Uint256) (voutPubkeys : List CPubKey) (oprets : Oprets) :
    List UInt8 :=
  0x6a::pushData (transferHead tokenid voutPubkeys++writeOprets oprets)

/-- Fills and cancellations carry nothing. -/
abbrev HasNoData (assetFuncId : UInt8) : Prop := assetFuncId=chr 'x' ∨ assetFuncId=chr 'o'

abbrev IsOrder (assetFuncId : UInt8) : Prop :=
  assetFuncId=chr 's' ∨ assetFuncId=chr 'b' ∨ assetFuncId=chr 'S' ∨ assetFuncId=chr 'B'

abbrev IsExchange (assetFuncId : UInt8) : Prop := assetFuncId=chr 'E' ∨ assetFuncId=chr 'e'

/-- The payload of an asset transaction, empty for an illegal funcid. -/
def encodeAssetOpRet (assetFuncId : UInt8) (assetid2 : Uint256) (price : Int)
    (origpubkey : List UInt8) : List UInt8 :=
  if HasNoData assetFuncId then [EVAL_ASSETS,assetFuncId]
  else if IsOrder assetFuncId then
    [EVAL_ASSETS,assetFuncId]++(writeInt64 price++writeVector8 origpubkey)
  else if IsExchange assetFuncId then
    [EVAL_ASSETS,assetFuncId]++(writeUint256 (revuint256 assetid2)++
      (writeInt64 price++writeVector8 origpubkey))
  else []

/-- What the payload of an asset transaction holds of its arguments. -/
def carriedAsset (assetid : Uint256) (assetFuncId : UInt8) (assetid2 : Uint256) (price : Int)
    (origpubkey : List UInt8) : AssetOpRet :=
  ⟨assetFuncId,assetid,if IsExchange assetFuncId then assetid2 else 0,
    if HasNoData assetFuncId then 0 else price,if HasNoData assetFuncId then [] else origpubkey⟩

/-- The payloads, read without ids, begin as game or asset data do. -/
def readsOldstyle (oprets : Oprets) : Bool :=
  (unmarshal8 readOldstyleData (writeOprets oprets)).any isOldstyle

/-- A valid compressed key. -/
def IsCompressed (pk : CPubKey) : Prop := pk.length=33 ∧ (pk.head?=some 2 ∨ pk.head?=some 3)

end Definitions

section Transfers

theorem revuint256_revuint256 (x : Uint256) : revuint256 (revuint256 x)=x := by
  have hlen : (toBytes x).reverse.length=256/8 := by
    rw [List.length_reverse,length_toBytes]
  unfold revuint256
  rw [toBytes_ofBytes (by decide) hlen,List.reverse_reverse,ofBytes_toBytes (by decide)]

theorem IsCompressed.isPubKey {pk : CPubKey} (h : IsCompressed pk) : IsPubKey pk := by
  intro chHeader hhead
  rw [h.1]
  rcases h.2 with htwo | hthree
  · rw [htwo] at hhead
    rw [← Option.some.inj hhead]
    rfl
  · rw [hthree] at hhead
    rw [← Option.some.inj hhead]
    rfl

theorem IsCompressed.ne_nil {pk : CPubKey} (h : IsCompressed pk) : pk≠[] := by
  rintro rfl
  cases h.1

/-- A part that is read whole leaves the rest to the next reader. -/
theorem unmarshal_bind {α β : Type} {r : Reader α} {e : List Byte} {a : α} (h : Reads r e a)
    (r' : Reader β) (bs : List Byte) :
    unmarshal (do
      let a ← r
      let b ← r'
      return (a,b)) (e++bs)=(unmarshal r' bs).map fun b => (a,b) := by
  have hpair : (r'>>=fun b => (pure (a,b) : Reader (α × β))) bs=
      (r' bs).map fun p => ((a,p.1),p.2) := by
    change (r' bs).bind _=_
    cases r' bs <;> rfl
  unfold unmarshal
  rw [h.run_bind,hpair]
  rcases r' bs with _ | ⟨b,_ | ⟨c,cs⟩⟩ <;> rfl

/-- The keys of a transfer as its head holds them. -/
theorem reads_transferHead {tokenid : Uint256} {voutPubkeys : List CPubKey}
    (hfew : voutPubkeys.length≤2) (hkeys : ∀pk∈voutPubkeys,IsPubKey pk) (stray : List UInt8) :
    ∃head : TransferHead,head.ccType≤2 ∧ head.tokenid=revuint256 tokenid ∧
      head.voutPubkeys=voutPubkeys.filter (·≠[]) ∧
      Reads (readTransferHead stray) ((transferHead tokenid voutPubkeys).map UInt8.toBitVec)
        head := by
  have hkey : ∀pk∈voutPubkeys,
      Reads (readPubKey stray) ((writeVector8 pk).map UInt8.toBitVec) pk := by
    intro pk hpk
    rw [map_writeVector8]
    exact reads_pubKey (hkeys pk hpk) stray
  have hid : (writeUint256 (revuint256 tokenid)).map UInt8.toBitVec=toBytes (revuint256 tokenid) :=
    map_toBitVec_ofBitVec _
  have hfront : ∀{ccType : UInt8} {k₁ k₂ : CPubKey} {e₁ e₂ : List Byte},
      Reads (readPubKeyIf stray (1 ≤ ccType)) e₁ k₁ → Reads (readPubKeyIf stray (ccType=2)) e₂ k₂ →
      Reads (readTransferHead stray) ([EVAL_TOKENS.toBitVec]++([(chr 't').toBitVec]++
        (toBytes (revuint256 tokenid)++([ccType.toBitVec]++(e₁++e₂)))))
        ⟨revuint256 tokenid,ccType,k₁,k₂⟩ := by
    intro ccType k₁ k₂ e₁ e₂ h₁ h₂
    exact (reads_uint8 _).bind ((reads_uint8 _).bind ((Reads.word (by decide) _).bind
      ((reads_uint8 ccType).bind (h₁.bind (h₂.map fun k₂ =>
        (⟨revuint256 tokenid,ccType,k₁,k₂⟩ : TransferHead))))))
  rcases voutPubkeys with _ | ⟨pk,_ | ⟨pk',_ | ⟨pk'',pks⟩⟩⟩
  · refine ⟨⟨revuint256 tokenid,0,[],[]⟩,(by decide : (0 : UInt8)≤2),rfl,rfl,?_⟩
    have hread := @hfront 0 [] [] [] [] (Reads.pure []) (Reads.pure [])
    rw [← hid] at hread
    exact hread
  · refine ⟨⟨revuint256 tokenid,1,pk,[]⟩,(by decide : (1 : UInt8)≤2),rfl,?_,?_⟩
    · simp [TransferHead.voutPubkeys,List.filter_cons]
    · have hread := @hfront 1 pk [] _ [] (hkey pk (List.mem_cons_self ..)) (Reads.pure [])
      rw [← hid] at hread
      simpa [transferHead,ccTypeOf] using hread
  · have hmem : pk'∈[pk,pk'] := List.mem_cons_of_mem _ (List.mem_cons_self ..)
    refine ⟨⟨revuint256 tokenid,2,pk,pk'⟩,(by decide : (2 : UInt8)≤2),rfl,rfl,?_⟩
    have hread := @hfront 2 pk pk' _ _ (hkey pk (List.mem_cons_self ..)) (hkey pk' hmem)
    rw [← hid] at hread
    simpa [transferHead,ccTypeOf] using hread
  · simp only [List.length_cons] at hfew
    omega

end Transfers

section RoundTrips

theorem writeOprets_eq {oprets : Oprets} (hid : ∀o∈oprets,o.1≠0) :
    writeOprets oprets=oprets.flatMap fun o => o.1::writeVector8 o.2 := by
  rw [writeOprets,List.filter_eq_self.mpr fun o ho => decide_eq_true (hid o ho)]

theorem length_writeVector8 (v : List UInt8) : (writeVector8 v).length=(writeBytes v).length := by
  rw [← map_writeVector8,List.length_map]

theorem unmarshal_oprets {oprets : Oprets} (hid : ∀o∈oprets,o.1≠0)
    (hsized : ∀o∈oprets,o.2.length≤MAX_SIZE) :
    unmarshal8 readOprets (writeOprets oprets)=some oprets := by
  have hread : readOprets ((writeOprets oprets).map UInt8.toBitVec)=some (oprets,[]) := by
    rw [writeOprets_eq hid]
    exact opretsLoop_eq (length_oprets_le oprets) hsized
  rw [unmarshal8,unmarshal,hread]

theorem sized_of_unmarshal {v : List UInt8} {oprets : Oprets}
    (h : unmarshal8 readOprets v=some oprets) : ∀o∈oprets,o.2.length≤MAX_SIZE := by
  unfold unmarshal8 unmarshal at h
  rcases hread : readOprets (v.map UInt8.toBitVec) with _ | ⟨a,_ | ⟨c,rest⟩⟩
  · rw [hread] at h
    cases h
  · rw [hread] at h
    obtain rfl := Option.some.inj h
    exact opretsLoop_sized hread
  · rw [hread] at h
    cases h

/-- Data without an id are read from the whole rest. -/
theorem oldstyle_eq_some {v d : List UInt8} (hne : v≠[])
    (h : unmarshal8 readOldstyleData v=some d) : v=writeVector8 d := by
  have hne' : v.map UInt8.toBitVec≠[] := by simpa using hne
  unfold unmarshal8 unmarshal readOldstyleData at h
  rw [if_neg hne'] at h
  rcases hread : readVector8 (v.map UInt8.toBitVec) with _ | ⟨a,_ | ⟨c,rest⟩⟩
  · rw [hread] at h
    cases h
  · rw [hread] at h
    obtain rfl := Option.some.inj h
    obtain ⟨-,hv⟩ := readVector8_eq_some hread
    rw [List.append_nil,← map_writeVector8] at hv
    exact List.map_injective_iff.mpr (fun _ _ h => UInt8.toBitVec_inj.mp h) hv
  · rw [hread] at h
    cases h

/-- A single payload is not the data that are read from it without its id. -/
theorem oldstyle_ne {id : UInt8} {d : List UInt8} (hid : id≠0) :
    unmarshal8 readOldstyleData (writeOprets [(id,d)])≠some d := by
  intro h
  have hwrite : writeOprets [(id,d)]=id::writeVector8 d := by
    rw [writeOprets_eq (by simpa using hid),List.flatMap_singleton]
  rw [hwrite] at h
  have hsame := congrArg List.length (oldstyle_eq_some (List.cons_ne_nil _ _) h)
  rw [List.length_cons] at hsame
  omega

/-- What a transfer is decoded to, by what its payloads look like without ids. -/
theorem decodeTransfer_encode {tokenid : Uint256} {voutPubkeys : List CPubKey} {oprets : Oprets}
    (hfew : voutPubkeys.length≤2) (hvalid : ∀pk∈voutPubkeys,IsPubKey pk) (stray : List UInt8) :
    ∃head : TransferHead,head.ccType≤2 ∧ head.tokenid=revuint256 tokenid ∧
      head.voutPubkeys=voutPubkeys.filter (·≠[]) ∧
      decodeTransfer stray (transferHead tokenid voutPubkeys++writeOprets oprets)=
        if readsOldstyle oprets then
          (unmarshal8 readOldstyleData (writeOprets oprets)).map fun d => (head,oldstyleOprets d)
        else (unmarshal8 readOprets (writeOprets oprets)).map fun oprets => (head,oprets) := by
  obtain ⟨head,htype,hid,hkeys,hread⟩ := @reads_transferHead tokenid _ hfew hvalid stray
  refine ⟨head,htype,hid,hkeys,?_⟩
  unfold decodeTransfer
  dsimp only
  rw [unmarshal8,List.map_append,unmarshal_bind hread,unmarshal8,List.map_append,
    unmarshal_bind hread]
  unfold readsOldstyle unmarshal8
  cases unmarshal readOldstyleData ((writeOprets oprets).map UInt8.toBitVec) with
  | none => rfl
  | some d => rw [Option.map_some,Option.any_some,Option.map_some]

theorem decodeTokenOpRet_transfer {tokenid : Uint256} {voutPubkeys : List CPubKey} {oprets : Oprets}
    (hfew : voutPubkeys.length≤2) (hvalid : ∀pk∈voutPubkeys,IsPubKey pk)
    (hlen : (transferHead tokenid voutPubkeys++writeOprets oprets).length<2^32)
    (stray : List UInt8) :
    decodeTokenOpRet stray (encodeTokenOpRet tokenid voutPubkeys oprets)=
      (if readsOldstyle oprets then
          (unmarshal8 readOldstyleData (writeOprets oprets)).map oldstyleOprets
        else unmarshal8 readOprets (writeOprets oprets)).map fun oprets =>
          ⟨chr 't',tokenid,voutPubkeys.filter (·≠[]),oprets⟩ := by
  obtain ⟨head,htype,hid,hkeys,hdecode⟩ := @decodeTransfer_encode tokenid _ oprets
    hfew hvalid stray
  have hdata : opretData (encodeTokenOpRet tokenid voutPubkeys oprets)=
      transferHead tokenid voutPubkeys++writeOprets oprets :=
    opretData_pushData (by simp [transferHead]) hlen
  have hlong : 2<(transferHead tokenid voutPubkeys++writeOprets oprets).length := by
    simp only [transferHead,writeUint256,List.length_append,List.length_cons,List.length_nil,
      List.length_map,length_toBytes]
    omega
  have hfirst : (transferHead tokenid voutPubkeys++writeOprets oprets)[0]?=some EVAL_TOKENS := rfl
  have hsecond : (transferHead tokenid voutPubkeys++writeOprets oprets)[1]?=some (chr 't') := rfl
  unfold decodeTokenOpRet
  dsimp only
  rw [hdata,if_pos ⟨hlong,hfirst⟩,hsecond,if_neg (by decide),if_pos rfl,hdecode]
  split_ifs
  · cases unmarshal8 readOldstyleData (writeOprets oprets) with
    | none => rfl
    | some d =>
      rw [Option.map_some,Option.map_some,Option.map_some]
      dsimp only
      rw [if_pos htype,hid,hkeys,revuint256_revuint256]
  · cases unmarshal8 readOprets (writeOprets oprets) with
    | none => rfl
    | some oprets' =>
      rw [Option.map_some,Option.map_some]
      dsimp only
      rw [if_pos htype,hid,hkeys,revuint256_revuint256]

/-- A transfer is read back whole unless its payloads are too long or look like old data. -/
theorem transfer_restored_iff {tokenid : Uint256} {voutPubkeys : List CPubKey} {oprets : Oprets}
    (hfew : voutPubkeys.length≤2) (hvalid : ∀pk∈voutPubkeys,IsCompressed pk)
    (hid : ∀o∈oprets,o.1≠0)
    (hlen : (transferHead tokenid voutPubkeys++writeOprets oprets).length<2^32)
    (stray : List UInt8) :
    decodeTokenOpRet stray (encodeTokenOpRet tokenid voutPubkeys oprets)=
        some ⟨chr 't',tokenid,voutPubkeys,oprets⟩ ↔
      (∀o∈oprets,o.2.length≤MAX_SIZE) ∧ readsOldstyle oprets=false := by
  have hkept : voutPubkeys.filter (·≠[])=voutPubkeys :=
    List.filter_eq_self.mpr fun pk hpk => decide_eq_true (hvalid pk hpk).ne_nil
  rw [decodeTokenOpRet_transfer hfew (fun pk hpk => (hvalid pk hpk).isPubKey) hlen,hkept]
  constructor
  · intro h
    obtain ⟨oprets',hoprets,heq⟩ := Option.map_eq_some_iff.mp h
    obtain rfl : oprets'=oprets := congrArg TokenOpRet.oprets heq
    cases hold : readsOldstyle oprets' with
    | false =>
      rw [hold,if_neg Bool.false_ne_true] at hoprets
      exact ⟨sized_of_unmarshal hoprets,rfl⟩
    | true =>
      rw [hold,if_pos rfl] at hoprets
      obtain ⟨d,hread,rfl⟩ := Option.map_eq_some_iff.mp hoprets
      exact absurd hread (oldstyle_ne (hid _ (List.mem_singleton_self _)))
  · rintro ⟨hsized,hold⟩
    rw [hold,if_neg Bool.false_ne_true,unmarshal_oprets hid hsized]
    rfl

theorem create_restored_iff {create : TokenCreate} (hlen : (tokenCreateData create).length<2^32) :
    decodeTokenCreateOpRet (encodeTokenCreateOpRet create)=some create ↔
      create.Sized ∧ ∀o∈create.oprets,o.1≠0 := by
  constructor
  · intro h
    have hsized := TokenCreate.sized_of_decode h
    rw [(decode_encodeTokenCreateOpRet hsized hlen).2] at h
    have hfilter : create.oprets.filter (·.1≠0)=create.oprets :=
      congrArg TokenCreate.oprets (Option.some.inj h)
    rw [List.filter_eq_self] at hfilter
    exact ⟨hsized,fun o ho => of_decide_eq_true (hfilter o ho)⟩
  · rintro ⟨hsized,hid⟩
    rw [(decode_encodeTokenCreateOpRet hsized hlen).2,
      List.filter_eq_self.mpr fun o ho => decide_eq_true (hid o ho)]

end RoundTrips

section Payloads

theorem reads_int64 {price : Int} (hlow : -2^63≤price) (hhigh : price<2^63) :
    Reads readInt64 ((writeInt64 price).map UInt8.toBitVec) price := by
  have hprice : (BitVec.ofInt 64 price).toInt=price := by
    rw [BitVec.toInt_ofInt,Int.bmod_eq_of_le (by omega) (by omega)]
  have hread := (Reads.word (by decide : 8∣64) (BitVec.ofInt 64 price)).map BitVec.toInt
  rw [hprice] at hread
  rw [writeInt64,map_toBitVec_ofBitVec]
  exact hread

/-- The asset payload is decoded to what it carries. -/
theorem decodeAssetData_encode {assetFuncId : UInt8} {assetid2 : Uint256} {price : Int}
    {origpubkey : List UInt8}
    (hfunc : HasNoData assetFuncId ∨ IsOrder assetFuncId ∨ IsExchange assetFuncId)
    (hlow : -2^63≤price) (hhigh : price<2^63)
    (hsized : (encodeAssetOpRet assetFuncId assetid2 price origpubkey).length≤MAX_SIZE)
    (assetid : Uint256) :
    decodeAssetData assetid (encodeAssetOpRet assetFuncId assetid2 price origpubkey)=
      some (carriedAsset assetid assetFuncId assetid2 price origpubkey) := by
  have hkeyLen := (length_writeBytes origpubkey).1
  rw [← length_writeVector8] at hkeyLen
  unfold encodeAssetOpRet at hsized ⊢
  split_ifs at hsized ⊢ with hno horder hexchange
  · have hnot : ¬IsExchange assetFuncId := by
      rcases hno with rfl | rfl <;> decide
    rw [decodeAssetData,if_neg (by decide),if_pos hno,if_pos rfl,carriedAsset,if_neg hnot,
      if_pos hno,if_pos hno]
  · have hnot : ¬IsExchange assetFuncId := by
      rcases horder with rfl | rfl | rfl | rfl <;> decide
    have hkey : Reads readVector8 ((writeVector8 origpubkey).map UInt8.toBitVec) origpubkey := by
      rw [map_writeVector8]
      refine reads_bytes8 ?_
      simp only [List.length_append,List.length_cons,List.length_nil] at hsized
      omega
    have hread : Reads readOrder (([EVAL_ASSETS,assetFuncId]++
        (writeInt64 price++writeVector8 origpubkey)).map UInt8.toBitVec) (price,origpubkey) := by
      rw [List.map_append,List.map_append]
      exact (reads_uint8 EVAL_ASSETS).bind ((reads_uint8 assetFuncId).bind
        ((reads_int64 hlow hhigh).bind (hkey.map fun key => (price,key))))
    have hdecode : unmarshal8 readOrder ([EVAL_ASSETS,assetFuncId]++
        (writeInt64 price++writeVector8 origpubkey))=some (price,origpubkey) := by
      rw [unmarshal8,Chain.unmarshal_of_reads hread]
    change (if EVAL_ASSETS≠EVAL_ASSETS then none else _)=_
    rw [if_neg (fun h => h rfl),if_neg hno,if_pos horder]
    change (unmarshal8 readOrder ([EVAL_ASSETS,assetFuncId]++
        (writeInt64 price++writeVector8 origpubkey))).map _=_
    rw [hdecode,carriedAsset,if_neg hnot,if_neg hno,if_neg hno]
    rfl
  · have hkey : Reads readVector8 ((writeVector8 origpubkey).map UInt8.toBitVec) origpubkey := by
      rw [map_writeVector8]
      refine reads_bytes8 ?_
      simp only [List.length_append,List.length_cons,List.length_nil] at hsized
      omega
    have hid : Reads (Reader.word 256) ((writeUint256 (revuint256 assetid2)).map UInt8.toBitVec)
        (revuint256 assetid2) := by
      rw [writeUint256,map_toBitVec_ofBitVec]
      exact Reads.word (by decide) _
    have hread : Reads readExchange (([EVAL_ASSETS,assetFuncId]++
        (writeUint256 (revuint256 assetid2)++
          (writeInt64 price++writeVector8 origpubkey))).map UInt8.toBitVec)
        (revuint256 assetid2,price,origpubkey) := by
      rw [List.map_append,List.map_append,List.map_append]
      exact (reads_uint8 EVAL_ASSETS).bind ((reads_uint8 assetFuncId).bind (hid.bind
        ((reads_int64 hlow hhigh).bind (hkey.map fun key => (revuint256 assetid2,price,key)))))
    have hdecode : unmarshal8 readExchange ([EVAL_ASSETS,assetFuncId]++
        (writeUint256 (revuint256 assetid2)++(writeInt64 price++writeVector8 origpubkey)))=
          some (revuint256 assetid2,price,origpubkey) := by
      rw [unmarshal8,Chain.unmarshal_of_reads hread]
    change (if EVAL_ASSETS≠EVAL_ASSETS then none else _)=_
    rw [if_neg (fun h => h rfl),if_neg hno,if_neg horder,if_pos hexchange]
    change (unmarshal8 readExchange ([EVAL_ASSETS,assetFuncId]++
        (writeUint256 (revuint256 assetid2)++(writeInt64 price++writeVector8 origpubkey)))).map _=_
    rw [hdecode,carriedAsset,if_pos hexchange,if_neg hno,if_neg hno,Option.map_some,
      revuint256_revuint256]
  · rcases hfunc with h | h | h
    · exact absurd h hno
    · exact absurd h horder
    · exact absurd h hexchange

theorem encodeAssetOpRet_head {assetFuncId : UInt8} (assetid2 : Uint256) (price : Int)
    (origpubkey : List UInt8)
    (hfunc : HasNoData assetFuncId ∨ IsOrder assetFuncId ∨ IsExchange assetFuncId) :
    ∃rest,encodeAssetOpRet assetFuncId assetid2 price origpubkey=
      EVAL_ASSETS::assetFuncId::rest := by
  unfold encodeAssetOpRet
  split_ifs with hno horder hexchange
  · exact ⟨_,rfl⟩
  · exact ⟨_,rfl⟩
  · exact ⟨_,rfl⟩
  · rcases hfunc with h | h | h
    · exact absurd h hno
    · exact absurd h horder
    · exact absurd h hexchange

end Payloads

section Assets

/-- The size byte of a short vector, or the mark of a longer size. -/
theorem writeVector8_head (v : List UInt8) : ∃c cs,writeVector8 v=c::cs ∧
    (cs=v ∨ c=253 ∨ c=254 ∨ c=255) := by
  unfold writeVector8 writeCompactSize
  split_ifs
  · exact ⟨_,_,rfl,.inl rfl⟩
  · exact ⟨_,_,rfl,.inr (.inl rfl)⟩
  · exact ⟨_,_,rfl,.inr (.inr (.inl rfl))⟩
  · exact ⟨_,_,rfl,.inr (.inr (.inr rfl))⟩

/-- Asset data with their id in front do not look like data without one. -/
theorem readsOldstyle_asset {payload rest : List UInt8} {post : Oprets}
    (hpayload : payload=EVAL_ASSETS::rest) :
    readsOldstyle ((OPRETID_ASSETSDATA,payload)::post)=false := by
  have hwrite : writeOprets ((OPRETID_ASSETSDATA,payload)::post)=
      OPRETID_ASSETSDATA::(writeVector8 payload++writeOprets post) := by
    rw [writeOprets,List.filter_cons,if_pos (decide_eq_true (by decide : OPRETID_ASSETSDATA≠0)),
      List.flatMap_cons]
    rfl
  unfold readsOldstyle
  rw [hwrite]
  cases hread : unmarshal8 readOldstyleData
      (OPRETID_ASSETSDATA::(writeVector8 payload++writeOprets post)) with
  | none => rfl
  | some d =>
    have hd := oldstyle_eq_some (List.cons_ne_nil _ _) hread
    obtain ⟨c,cs,hvector,hshort⟩ := writeVector8_head d
    rw [hvector] at hd
    obtain ⟨hc,hcs⟩ := List.cons.inj hd
    have hsame : cs=d := by
      rcases hshort with h | h | h | h
      · exact h
      · rw [h] at hc
        exact absurd hc (by decide)
      · rw [h] at hc
        exact absurd hc (by decide)
      · rw [h] at hc
        exact absurd hc (by decide)
    obtain ⟨c',cs',hvector',hshort'⟩ := writeVector8_head payload
    rw [← hsame,← hcs,hvector',List.cons_append,Option.any_some]
    rcases hshort' with h | h | h | h
    · have hgame : ("RHQKG".toList.map chr).contains EVAL_ASSETS=false := by decide
      have hasset : ("sbSBxo".toList.map chr).contains EVAL_ASSETS=false := by decide
      rw [h,hpayload,List.cons_append,isOldstyle,hgame,hasset,Bool.and_false,Bool.and_false]
      rfl
    · rw [h]
      cases cs'++writeOprets post <;> rfl
    · rw [h]
      cases cs'++writeOprets post <;> rfl
    · rw [h]
      cases cs'++writeOprets post <;> rfl

theorem getOpretBlob_first {pre post : Oprets} {id : UInt8} {blob : List UInt8}
    (hpre : ∀o∈pre,o.1≠id) : getOpretBlob (pre++(id,blob)::post) id=blob := by
  have hnone : pre.find? (fun p => p.1==id)=none := by
    rw [List.find?_eq_none]
    intro o ho
    simpa using hpre o ho
  rw [getOpretBlob,List.find?_append,hnone,Option.none_or,List.find?_cons]
  simp

/-- The asset payload behind a decoded head. -/
theorem decodeAssetTokenOpRet_of {stray script : List UInt8} {r : TokenOpRet} {pre post : Oprets}
    {assetFuncId : UInt8} {assetid2 : Uint256} {price : Int} {origpubkey : List UInt8}
    (hfunc : HasNoData assetFuncId ∨ IsOrder assetFuncId ∨ IsExchange assetFuncId)
    (hlow : -2^63≤price) (hhigh : price<2^63) (hpre : ∀o∈pre,o.1≠OPRETID_ASSETSDATA)
    (hoprets : r.oprets=pre++(OPRETID_ASSETSDATA,
      encodeAssetOpRet assetFuncId assetid2 price origpubkey)::post)
    (hsized : ∀o∈r.oprets,o.2.length≤MAX_SIZE)
    (hdecode : decodeTokenOpRet stray script=some r) :
    decodeAssetTokenOpRet stray script=
      some (carriedAsset r.tokenid assetFuncId assetid2 price origpubkey) := by
  unfold decodeAssetTokenOpRet
  rw [hdecode]
  dsimp only
  rw [hoprets] at hsized ⊢
  rw [getOpretBlob_first hpre]
  have hmem := hsized _ (List.mem_append_right pre (List.mem_cons_self ..))
  exact decodeAssetData_encode hfunc hlow hhigh hmem r.tokenid

theorem decodeTokenOpRet_create {create : TokenCreate} (h : create.Sized)
    (hid : ∀o∈create.oprets,o.1≠0) (hlen : (tokenCreateData create).length<2^32)
    (stray : List UInt8) :
    decodeTokenOpRet stray (encodeTokenCreateOpRet create)=some ⟨chr 'c',0,[],create.oprets⟩ := by
  have hdata := (decode_encodeTokenCreateOpRet h hlen).1
  have hlong : 2<(tokenCreateData create).length := by
    have hkey := (length_writeBytes create.origpubkey).1
    rw [← map_writeVector8,List.length_map] at hkey
    simp only [tokenCreateData,List.length_append,List.length_cons,List.length_nil]
    omega
  have hfirst : (tokenCreateData create)[0]?=some EVAL_TOKENS := rfl
  have hsecond : (tokenCreateData create)[1]?=some (chr 'c') := rfl
  unfold decodeTokenOpRet
  dsimp only
  rw [hdata,if_pos ⟨hlong,hfirst⟩,if_pos hsecond,(create_restored_iff hlen).mpr ⟨h,hid⟩]

/-- Token op_returns are read back exactly when every part can be read again and the
payloads of a transfer do not look like data without ids; asset payloads inside come back with
what they carry. -/
theorem token_opret_round_trip (stray : List UInt8) :
    (∀(tokenid : Uint256) (voutPubkeys : List CPubKey) (oprets : Oprets),voutPubkeys.length≤2 →
      (∀pk∈voutPubkeys,IsCompressed pk) → (∀o∈oprets,o.1≠0) →
      (transferHead tokenid voutPubkeys++writeOprets oprets).length<2^32 →
      (decodeTokenOpRet stray (encodeTokenOpRet tokenid voutPubkeys oprets)=
          some ⟨chr 't',tokenid,voutPubkeys,oprets⟩ ↔
        (∀o∈oprets,o.2.length≤MAX_SIZE) ∧ readsOldstyle oprets=false)) ∧
      (∀create : TokenCreate,(tokenCreateData create).length<2^32 →
        (decodeTokenCreateOpRet (encodeTokenCreateOpRet create)=some create ↔
          create.Sized ∧ ∀o∈create.oprets,o.1≠0)) ∧
      ∀(assetFuncId : UInt8) (assetid2 : Uint256) (price : Int) (origpubkey : List UInt8)
        (pre post oprets : Oprets),
        HasNoData assetFuncId ∨ IsOrder assetFuncId ∨ IsExchange assetFuncId →
        -2^63≤price → price<2^63 → (∀o∈pre,o.1≠OPRETID_ASSETSDATA) →
        oprets=pre++(OPRETID_ASSETSDATA,
          encodeAssetOpRet assetFuncId assetid2 price origpubkey)::post →
        (∀o∈oprets,o.1≠0) → (∀o∈oprets,o.2.length≤MAX_SIZE) →
        (∀(tokenid : Uint256) (voutPubkeys : List CPubKey),voutPubkeys.length≤2 →
          (∀pk∈voutPubkeys,IsCompressed pk) →
          (transferHead tokenid voutPubkeys++writeOprets oprets).length<2^32 →
          (pre=[] ∨ readsOldstyle oprets=false) →
          decodeAssetTokenOpRet stray (encodeTokenOpRet tokenid voutPubkeys oprets)=
            some (carriedAsset tokenid assetFuncId assetid2 price origpubkey)) ∧
        ∀create : TokenCreate,create.Sized → create.oprets=oprets →
          (tokenCreateData create).length<2^32 →
          decodeAssetTokenOpRet stray (encodeTokenCreateOpRet create)=
            some (carriedAsset 0 assetFuncId assetid2 price origpubkey) := by
  refine ⟨fun tokenid voutPubkeys oprets hfew hvalid hid hlen =>
      transfer_restored_iff hfew hvalid hid hlen stray,
    fun create hlen => create_restored_iff hlen,?_⟩
  intro assetFuncId assetid2 price origpubkey pre post oprets hfunc hlow hhigh hpre hoprets hid
    hsized
  constructor
  · intro tokenid voutPubkeys hfew hvalid hlen hold
    have hnew : readsOldstyle oprets=false := by
      rcases hold with rfl | hnew
      · obtain ⟨rest,hrest⟩ := encodeAssetOpRet_head assetid2 price origpubkey hfunc
        rw [hoprets,List.nil_append]
        exact readsOldstyle_asset hrest
      · exact hnew
    have hdecode := (transfer_restored_iff hfew hvalid hid hlen stray).mpr ⟨hsized,hnew⟩
    exact decodeAssetTokenOpRet_of hfunc hlow hhigh hpre hoprets hsized hdecode
  · rintro create hcreate rfl hlen
    have hdecode := decodeTokenOpRet_create hcreate hid hlen stray
    exact decodeAssetTokenOpRet_of hfunc hlow hhigh hpre hoprets hsized hdecode

/-- A transfer with an order and with game data behind it. -/
theorem order_restored :
    decodeTokenOpRet [] (encodeTokenOpRet 9 [World.keyOf 7]
        [(OPRETID_ASSETSDATA,encodeAssetOpRet (chr 's') 0 5 (World.keyOf 7)),(0x16,[0x11,0x52])])=
      some ⟨chr 't',9,[World.keyOf 7],[(OPRETID_ASSETSDATA,
        encodeAssetOpRet (chr 's') 0 5 (World.keyOf 7)),(0x16,[0x11,0x52])]⟩ ∧
    decodeAssetTokenOpRet [] (encodeTokenOpRet 9 [World.keyOf 7]
        [(OPRETID_ASSETSDATA,encodeAssetOpRet (chr 's') 0 5 (World.keyOf 7)),(0x16,[0x11,0x52])])=
      some (carriedAsset 9 (chr 's') 0 5 (World.keyOf 7)) := by
  have hkey : ∀pk∈[World.keyOf 7],IsCompressed pk := by
    intro pk hpk
    rw [List.mem_singleton.mp hpk]
    exact ⟨rfl,.inl rfl⟩
  have hmain := token_opret_round_trip []
  refine ⟨(hmain.1 9 [World.keyOf 7] _ (by decide) hkey (by decide) (by decide +kernel)).mpr
    ⟨by decide,by decide +kernel⟩,?_⟩
  exact (hmain.2.2 (chr 's') 0 5 (World.keyOf 7) [] [(0x16,[0x11,0x52])] _ (by decide) (by decide)
    (by decide) (by decide) rfl (by decide) (by decide)).1 9 [World.keyOf 7] (by decide) hkey
      (by decide +kernel) (.inl rfl)

/-- Seventeen bytes of asset data look like game data; creation data with id 0 are left out;
and a cancellation carries no price. -/
theorem opret_not_restored :
    ¬(∀(tokenid : Uint256) (voutPubkeys : List CPubKey) (oprets : Oprets),voutPubkeys.length≤2 →
      (∀pk∈voutPubkeys,IsCompressed pk) → (∀o∈oprets,o.1≠0) →
      decodeTokenOpRet [] (encodeTokenOpRet tokenid voutPubkeys oprets)=
        some ⟨chr 't',tokenid,voutPubkeys,oprets⟩) ∧
    ¬(∀create : TokenCreate,
      decodeTokenCreateOpRet (encodeTokenCreateOpRet create)=some create) ∧
    ¬(∀(price : Int) (origpubkey : List UInt8),
      (decodeAssetTokenOpRet [] (encodeTokenOpRet 9 []
        [(OPRETID_ASSETSDATA,encodeAssetOpRet (chr 'x') 0 price origpubkey)])).map
          (fun r => (r.funcid,r.price,r.origpubkey))=some (chr 'x',price,origpubkey)) := by
  refine ⟨fun hall => ?_,fun hall => ?_,fun hall => ?_⟩
  · have h := hall 9 [] [(OPRETID_ASSETSDATA,chr 'R'::List.replicate 16 0)] (by decide) (by simp)
      (by decide)
    exact absurd h (by decide +kernel)
  · have h := hall ⟨[],[],[],[(0,[1])]⟩
    exact absurd h (by decide +kernel)
  · have h := hall 5 []
    exact absurd h (by decide +kernel)

end Assets

end Zdeex.Cc
