import Zdeex.Notary.StateFile

namespace Zdeex.Notary

open Zdeex.Framework

section Records

variable {c : Chain} {u : Uninit} {f : List Byte} {p : Nat} {xs bs : List Byte}

theorem memread_at (h : At f p (xs++bs)) : memread f xs.length p=some (xs,p+xs.length) := by
  have hlen := h.length_eq
  rw [List.length_append] at hlen
  rw [memread,if_pos (by omega),h.take]

theorem readWord_at {w : Nat} (hw : 8∣w) {x : BitVec w} (y : BitVec w)
    (h : At f p (toBytes x++bs)) : readWord f y p=(x,p+w/8) := by
  have hread := memread_at h
  rw [length_toBytes] at hread
  rw [readWord,hread]
  simp only [ofBytes_toBytes hw]

theorem byteAt_at {b : Byte} (h : At f p (b::bs)) : byteAt u f p=b := by
  rw [byteAt,List.getD_eq_getElem?_getD,h.get]
  rfl

/-- A record read back up to its height; the payload starts five bytes on. -/
theorem parse_header {b : Byte} {height : Int32} (n : Node)
    (h : At f p (b::(toBytes height++bs))) :
    hushParsestatefiledata c u f p n=some (b,parsePayload c u f b height (p+5) n) := by
  have hlen := h.length_eq
  have hlt : p<f.length := by
    rw [List.length_cons] at hlen
    omega
  rw [hushParsestatefiledata,if_pos hlt,byteAt_at h,readWord_at (by decide) u.ht h.tail]

theorem parseK_at {ht kheight : Int32} (n : Node) (h : At f p (toBytes kheight++bs)) :
    parseK c u f ht p n=
      (p+4,n.mapState fun sp => hushEventaddHushheight c sp ht kheight 0) := by
  rw [parseK,readWord_at (by decide) _ h]

theorem parseT_at {ht kheight : Int32} {ktimestamp : BitVec 32} (n : Node)
    (h : At f p (toBytes kheight++(toBytes ktimestamp++bs))) :
    parseT c u f ht p n=
      (p+8,n.mapState fun sp => hushEventaddHushheight c sp ht kheight ktimestamp) := by
  rw [parseT,readWord_at (by decide) _ h]
  simp only
  rw [readWord_at (by decide) _ h.word]

theorem parseU_at {numvouts notaryid : Byte} {voutmask : BitVec 64} {txhash : Uint256}
    (n : Node) (h : At f p (numvouts::notaryid::(toBytes voutmask++(toBytes txhash++bs)))) :
    parseU f p n=(p+42,n) := by
  have hmask := h.tail.tail
  rw [parseU,show p+2=p+1+1 from rfl,readWord_at (by decide) _ hmask]
  simp only
  rw [readWord_at (by decide) _ hmask.word]

theorem parseR_at {ht : Int32} {txhash : Uint256} {vout : BitVec 16} {value : BitVec 64}
    {buf : List Byte} (hbuf : buf.length<65536) (n : Node)
    (h : At f p (toBytes txhash++(toBytes vout++(toBytes value++
      (toBytes (BitVec.ofNat 16 buf.length)++(buf++bs)))))) :
    parseR c u f ht p n=
      (p+44+buf.length,n.mapState fun sp => hushEventaddOpreturn c sp ht txhash value vout buf) := by
  have hv := h.word
  have hvalue := hv.word
  have holen := hvalue.word
  have hread := memread_at holen.word
  have hnat : (BitVec.ofNat 16 buf.length).toNat=buf.length := by
    rw [BitVec.toNat_ofNat,Nat.mod_eq_of_lt hbuf]
  rw [parseR,readWord_at (by decide) _ h]
  simp only
  rw [readWord_at (by decide) _ hv]
  simp only
  rw [readWord_at (by decide) _ hvalue]
  simp only
  rw [readWord_at (by decide) _ holen]
  simp only
  rw [hnat,hread]
  rfl

theorem parseP_at {ht : Int32} {pubkeys : List Pubkey33} (hle : pubkeys.length≤64) (n : Node)
    (h : At f p (BitVec.ofNat 8 pubkeys.length::(pubkeys.flatMap toBytes++bs))) :
    parseP c u f ht p n=(p+1+33*pubkeys.length,
      if c.HUSH_EXTERNAL_NOTARIES≠0 ∧ c.symbol=c.SMART_CHAIN_SYMBOL then
        hushEventaddPubkeys c n ht pubkeys else n) := by
  have hnum : (BitVec.ofNat 8 pubkeys.length).toNat=pubkeys.length := by
    rw [BitVec.toNat_ofNat,Nat.mod_eq_of_lt (by omega)]
  have hread := memread_at h.tail
  rw [length_flatMap_toBytes] at hread
  rw [parseP,byteAt_at h,hnum,if_pos hle]
  rw [show 33=264/8 from rfl,hread]
  simp only [wordsOf_flatMap_toBytes (show 8∣264 by decide)]

theorem parseV_at {ht : Int32} {pvals : List (BitVec 32)} (hle : pvals.length≤128) (n : Node)
    (h : At f p (BitVec.ofNat 8 pvals.length::(pvals.flatMap toBytes++bs))) :
    parseV c u f ht p n=(p+1+4*pvals.length,
      n.mapState fun sp => hushEventaddPricefeed c sp ht pvals) := by
  have hnum : (BitVec.ofNat 8 pvals.length).toNat=pvals.length := by
    rw [BitVec.toNat_ofNat,Nat.mod_eq_of_lt (by omega)]
  have hread := memread_at h.tail
  rw [length_flatMap_toBytes] at hread
  rw [parseV,byteAt_at h,hnum,if_pos hle]
  rw [show 4=32/8 from rfl,hread]
  simp only [wordsOf_flatMap_toBytes (show 8∣32 by decide)]

theorem parseNotarized_at {withMoM : Bool} {ht notarized_height MoMdepth : Int32}
    {notarized_hash notarized_desttxid MoM : Uint256} (n : Node)
    (h : At f p (toBytes notarized_height++(toBytes notarized_hash++
      (toBytes notarized_desttxid++((if withMoM then toBytes MoM++toBytes MoMdepth else [])++bs))))) :
    parseNotarized c u f withMoM ht p n=(p+if withMoM then 104 else 68,
      n.mapState fun sp => hushEventaddNotarized c sp ht notarized_hash notarized_desttxid
        notarized_height (if withMoM then MoM else 0) (if withMoM then MoMdepth else 0)) := by
  have hhash := h.word
  have hdest := hhash.word
  have hMoM := hdest.word
  rw [parseNotarized,readWord_at (by decide) _ h]
  simp only
  rw [readWord_at (by decide) _ hhash]
  simp only
  rw [readWord_at (by decide) _ hdest]
  cases withMoM with
  | false => rfl
  | true =>
    simp only [if_true,List.append_assoc] at hMoM ⊢
    rw [readWord_at (by decide) _ hMoM]
    simp only
    rw [readWord_at (by decide) _ hMoM.word]

section Dispatch

variable (ht : Int32) (q : Nat) (n : Node)

theorem parsePayload_P : parsePayload c u f (letter 'P') ht q n=parseP c u f ht q n := by
  simp [parsePayload,letter]

theorem parsePayload_notarized (withMoM : Bool) :
    parsePayload c u f (if withMoM then letter 'M' else letter 'N') ht q n=
      parseNotarized c u f withMoM ht q n := by
  cases withMoM with
  | false => simp [parsePayload,letter]
  | true => simp [parsePayload,letter]

theorem parsePayload_U : parsePayload c u f (letter 'U') ht q n=parseU f q n := by
  simp [parsePayload,letter]

theorem parsePayload_K : parsePayload c u f (letter 'K') ht q n=parseK c u f ht q n := by
  simp [parsePayload,letter]

theorem parsePayload_T : parsePayload c u f (letter 'T') ht q n=parseT c u f ht q n := by
  simp [parsePayload,letter]

theorem parsePayload_R : parsePayload c u f (letter 'R') ht q n=parseR c u f ht q n := by
  simp [parsePayload,letter]

theorem parsePayload_V : parsePayload c u f (letter 'V') ht q n=parseV c u f ht q n := by
  simp [parsePayload,letter]

end Dispatch

end Records

/-- What the file of a state update gives back to a reader in state `n`: no
record and no change, or a record that leads to the same state. -/
def ReadsBack (c : Chain) (n : Node) (out : List Byte × Node) : Prop :=
  (out.1=[] ∧ out.2=n) ∨
  (out.1≠[] ∧ ∀u f p rest,At f p (out.1++rest) →
    ∃func,hushParsestatefiledata c u f p n=some (func,p+out.1.length,out.2))

/-- The fields of a notarization that later records depend on. -/
structure NotarizedOk (sp : HushState) : Prop where
  MoM_iff : sp.MoM=0 ↔ sp.MoMdepth=0
  nonneg : 0 ≤ sp.NOTARIZED_HEIGHT.toInt

/-- The call reaches the branch of the `P` record. -/
def UpdateArgs.WritesPubkeys (a : UpdateArgs) : Prop :=
  0<a.height.toInt ∧ a.HUSHheight=0 ∧ a.opretbuf=[] ∧ a.notarypubs≠[]

/-- The parser replays `P` records. -/
def Chain.ReplaysPubkeys (c : Chain) : Prop :=
  c.HUSH_EXTERNAL_NOTARIES≠0 ∧ c.SMART_CHAIN_SYMBOL≠""

/-- The steps whose effect the file can restore. -/
def Step.Persists (c : Chain) : Step → Prop
  | .update a => a.WritesPubkeys → c.ReplaysPubkeys
  | .notarize _ _ _ _ _ _ => True
  | .reorg height _ => 0<height.toInt
  | .regtest _ _ _ => False

section Frame

variable (c : Chain) (sp : HushState)

/-- What `NotarizedOk` looks at. -/
def latest : Uint256 × Int32 × Int32 := (sp.MoM,sp.MoMdepth,sp.NOTARIZED_HEIGHT)

theorem NotarizedOk.of_latest_eq {sp sp' : HushState} (h : NotarizedOk sp)
    (heq : latest sp'=latest sp) : NotarizedOk sp' := by
  simp only [latest,Prod.mk.injEq] at heq
  exact ⟨by rw [heq.1,heq.2.1]; exact h.MoM_iff,by rw [heq.2.2]; exact h.nonneg⟩

theorem NotarizedOk.empty : NotarizedOk .empty := ⟨by decide,by decide⟩

@[simp] theorem latest_hushEventadd (height : Int32) (data : EventData) :
    latest (hushEventadd c sp height data)=latest sp := by
  unfold hushEventadd
  split
  · rfl
  · rfl

@[simp] theorem latest_hushEventUndo (ep : HushEvent) :
    latest (hushEventUndo sp ep)=latest sp := by
  unfold hushEventUndo
  split
  · split
    · rfl
    · rfl
  · rfl

theorem latest_rewindEvents (height : Int32) (eps : List HushEvent) :
    latest (rewindEvents height eps sp)=latest sp := by
  induction eps generalizing sp with
  | nil => rfl
  | cons ep eps ih =>
    by_cases hlow : ep.height.toInt<height.toInt
    · rw [rewindEvents,if_pos hlow]
      rfl
    · rw [rewindEvents,if_neg hlow,ih,latest_hushEventUndo]

@[simp] theorem latest_hushSethushheight (hushheight : Int32) (timestamp : BitVec 32) :
    latest (hushSethushheight sp hushheight timestamp)=latest sp := by
  unfold hushSethushheight
  dsimp only
  split
  · split
    · rfl
    · rfl
  · split
    · rfl
    · rfl

@[simp] theorem latest_hushEventaddHushheight (height hushheight : Int32)
    (timestamp : BitVec 32) :
    latest (hushEventaddHushheight c sp height hushheight timestamp)=latest sp := by
  unfold hushEventaddHushheight
  split
  · rw [latest_hushSethushheight,latest_hushEventadd]
  · rw [hushEventRewind,latest_rewindEvents,latest_hushEventadd]

@[simp] theorem latest_hushEventaddOpreturn (height : Int32) (txid : Uint256)
    (value : BitVec 64) (vout : BitVec 16) (buf : List Byte) :
    latest (hushEventaddOpreturn c sp height txid value vout buf)=latest sp := by
  unfold hushEventaddOpreturn
  split
  · rfl
  · rw [latest_hushEventadd]

@[simp] theorem latest_hushEventaddPricefeed (height : Int32) (prices : List (BitVec 32)) :
    latest (hushEventaddPricefeed c sp height prices)=latest sp := by
  unfold hushEventaddPricefeed
  split
  · rw [latest_hushEventadd]
  · rfl

/-- The event of a notarization, with its fields written into the state. -/
theorem hushEventaddNotarized_eq (hN : c.IS_HUSH_NOTARY=0) (height : Int32)
    (hash desttxid : Uint256) (notarizedheight : Int32) (MoM : Uint256) (MoMdepth : Int32) :
    hushEventaddNotarized c sp height hash desttxid notarizedheight MoM MoMdepth=
      hushNotarizedUpdate (hushEventadd c sp height
        (.notarized hash desttxid MoM notarizedheight MoMdepth c.dest))
        height notarizedheight hash desttxid MoM MoMdepth := by
  simp [hushEventaddNotarized,hN]

/-- Recording the notarization already in the state keeps its fields. -/
theorem latest_hushEventaddNotarized (hN : c.IS_HUSH_NOTARY=0) (height : Int32)
    (hash desttxid : Uint256) :
    latest (hushEventaddNotarized c sp height hash desttxid sp.NOTARIZED_HEIGHT sp.MoM
      sp.MoMdepth)=latest sp := by
  rw [hushEventaddNotarized_eq c sp hN]
  unfold hushNotarizedUpdate
  split
  · rw [latest_hushEventadd]
  · rfl

end Frame

section Update

variable {c : Chain} {n n' : Node}

/-- A record reads back when its payload leads the parser to the same state. -/
theorem readsBack_record {b : Byte} {height : Int32} {payload : List Byte} {l : Nat}
    (hlen : payload.length=l)
    (h : ∀u f q rest,At f q (payload++rest) →
      parsePayload c u f b height q n=(q+l,n')) :
    ReadsBack c n (b::(toBytes height++payload),n') := by
  refine .inr ⟨by simp,fun u f p rest hat => ⟨b,?_⟩⟩
  have hrec : At f p (b::(toBytes height++(payload++rest))) := by simpa using hat
  rw [parse_header n hrec,h u f (p+5) rest hrec.tail.word]
  simp only [List.length_cons,List.length_append,length_toBytes,hlen]
  congr 3
  omega

theorem readsBack_hushheight (height kheight : Int32) (ktimestamp : BitVec 32) :
    ReadsBack c n (if ktimestamp≠0 then
        letter 'T'::(toBytes height++(toBytes kheight++toBytes ktimestamp))
      else letter 'K'::(toBytes height++toBytes kheight),
      n.mapState fun sp => hushEventaddHushheight c sp height kheight ktimestamp) := by
  by_cases hts : ktimestamp=0
  · subst hts
    rw [if_neg (by simp)]
    refine readsBack_record (length_toBytes kheight) fun u f q rest hat => ?_
    rw [parsePayload_K,parseK_at n hat]
  · rw [if_pos hts]
    refine readsBack_record (l := 8) (by simp) fun u f q rest hat => ?_
    rw [List.append_assoc] at hat
    rw [parsePayload_T,parseT_at n hat]

/-- The MoM that a record gives back is that of the state it was written from. -/
theorem readsBack_notarized {sp : HushState} (hwf : NotarizedOk sp) (height : Int32) :
    ReadsBack c n (notarizedRecord height sp,
      {n with sp := hushEventaddNotarized c n.sp height sp.NOTARIZED_HASH
                      sp.NOTARIZED_DESTTXID sp.NOTARIZED_HEIGHT sp.MoM sp.MoMdepth}) := by
  have hMoM : (if writesMoM sp then sp.MoM else 0)=sp.MoM ∧
      (if writesMoM sp then sp.MoMdepth else 0)=sp.MoMdepth := by
    by_cases hzero : sp.MoMdepth=0
    · have hMoM := hwf.MoM_iff.2 hzero
      simp [writesMoM,hzero,hMoM]
    · have hMoM : sp.MoM≠0 := fun h => hzero (hwf.MoM_iff.1 h)
      have hw : writesMoM sp=true := by
        rw [writesMoM,decide_eq_true hzero,decide_eq_true hMoM,Bool.and_self]
      rw [if_pos hw,if_pos hw]
      exact ⟨rfl,rfl⟩
  refine readsBack_record (l := if writesMoM sp then 104 else 68) ?_ fun u f q rest hat => ?_
  · cases writesMoM sp with
    | false => simp
    | true => simp
  simp only [List.append_assoc] at hat
  rw [parsePayload_notarized,parseNotarized_at n hat,hMoM.1,hMoM.2,Node.mapState_eq]

theorem readsBack_opreturn (height : Int32) (txhash : Uint256) (vout : BitVec 16)
    (value : BitVec 64) {buf : List Byte} (hbuf : buf.length<65536) :
    ReadsBack c n (letter 'R'::(toBytes height++(toBytes txhash++(toBytes vout++
        (toBytes value++(toBytes (BitVec.ofNat 16 buf.length)++buf))))),
      n.mapState fun sp => hushEventaddOpreturn c sp height txhash value vout buf) := by
  refine readsBack_record (l := 44+buf.length) ?_ fun u f q rest hat => ?_
  · simp only [List.length_append,length_toBytes]
    omega
  · simp only [List.append_assoc] at hat
    rw [parsePayload_R,parseR_at hbuf n hat,Nat.add_assoc]

theorem readsBack_pubkeys (hc : c.ReplaysPubkeys) (height : Int32) {pubkeys : List Pubkey33}
    (hle : pubkeys.length≤64) :
    ReadsBack c n (letter 'P'::(toBytes height++(BitVec.ofNat 8 pubkeys.length::
        pubkeys.flatMap toBytes)),
      hushEventaddPubkeys c n height pubkeys) := by
  refine readsBack_record (l := 1+33*pubkeys.length) ?_ fun u f q rest hat => ?_
  · rw [List.length_cons,length_flatMap_toBytes]
    omega
  · rw [List.cons_append] at hat
    rw [parsePayload_P,parseP_at hle n hat,if_pos ⟨hc.1,c.symbol_eq_iff.2 hc.2⟩,Nat.add_assoc]

theorem readsBack_utxo (height : Int32) (numvouts notaryid : Byte) (voutmask : BitVec 64)
    (txhash : Uint256) :
    ReadsBack c n (letter 'U'::(toBytes height++(numvouts::notaryid::
      (toBytes voutmask++toBytes txhash))),n) := by
  refine readsBack_record (l := 42) (by simp) fun u f q rest hat => ?_
  simp only [List.cons_append,List.append_assoc] at hat
  rw [parsePayload_U,parseU_at n hat]

theorem readsBack_pricefeed (height : Int32) {pvals : List (BitVec 32)}
    (hle : pvals.length≤128) :
    ReadsBack c n (letter 'V'::(toBytes height++(BitVec.ofNat 8 pvals.length::
        pvals.flatMap toBytes)),
      n.mapState fun sp => hushEventaddPricefeed c sp height pvals) := by
  refine readsBack_record (l := 1+4*pvals.length) ?_ fun u f q rest hat => ?_
  · rw [List.length_cons,length_flatMap_toBytes]
    omega
  · rw [List.cons_append] at hat
    rw [parsePayload_V,parseV_at hle n hat,Nat.add_assoc]

/-- A plain call of `hush_stateupdate` and the record it leaves. -/
theorem hushStateupdate_readsBack (a : UpdateArgs) (hwf : NotarizedOk n.sp)
    (hP : a.WritesPubkeys → c.ReplaysPubkeys) : ReadsBack c n (hushStateupdate c a n) := by
  unfold hushStateupdate
  split
  · exact .inl ⟨rfl,rfl⟩
  rename_i hheight
  split
  · exact readsBack_hushheight a.height a.HUSHheight a.HUSHtimestamp
  rename_i hhush
  split
  · exact readsBack_opreturn a.height a.txhash a.vout a.opretvalue a.opretbuf_lt
  rename_i hopret
  split
  · rename_i hpubs
    exact readsBack_pubkeys (hP ⟨by omega,not_not.1 hhush,not_not.1 hopret,hpubs⟩) a.height
      a.notarypubs_le
  split
  · exact readsBack_utxo a.height a.numvouts a.notaryid a.voutmask a.txhash
  split
  · split
    · exact readsBack_pricefeed a.height a.pvals_le
    · exact .inl ⟨rfl,rfl⟩
  · rw [Node.mapState_eq]
    exact readsBack_notarized hwf a.height

theorem hushStateupdate_notarizedOk (hN : c.IS_HUSH_NOTARY=0) (a : UpdateArgs)
    (hwf : NotarizedOk n.sp) : NotarizedOk (hushStateupdate c a n).2.sp := by
  unfold hushStateupdate
  split
  · exact hwf
  split
  · exact hwf.of_latest_eq (latest_hushEventaddHushheight c n.sp _ _ _)
  split
  · exact hwf.of_latest_eq (latest_hushEventaddOpreturn c n.sp _ _ _ _ _)
  split
  · exact hwf.of_latest_eq (latest_hushEventadd c n.sp _ _)
  split
  · exact hwf
  split
  · split
    · exact hwf.of_latest_eq (latest_hushEventaddPricefeed c n.sp _ _)
    · exact hwf
  · rw [Node.mapState_eq]
    exact hwf.of_latest_eq (latest_hushEventaddNotarized c n.sp hN _ _ _)

theorem hushStateupdate_hushheight {a : UpdateArgs} (hpos : 0<a.height.toInt)
    (hne : a.HUSHheight≠0) :
    hushStateupdate c a n=
      (if a.HUSHtimestamp≠0 then
          letter 'T'::(toBytes a.height++(toBytes a.HUSHheight++toBytes a.HUSHtimestamp))
        else letter 'K'::(toBytes a.height++toBytes a.HUSHheight),
        {n with sp := hushEventaddHushheight c n.sp a.height a.HUSHheight a.HUSHtimestamp}) := by
  rw [hushStateupdate,if_neg (by omega),if_pos hne,Node.mapState_eq]

/-- With every other argument zero the notarization of the state is recorded. -/
theorem hushStateupdate_plain {height : Int32} (hpos : 0<height.toInt) :
    hushStateupdate c (.plain height) n=(notarizedRecord height n.sp,
      {n with sp := hushEventaddNotarized c n.sp height n.sp.NOTARIZED_HASH
                      n.sp.NOTARIZED_DESTTXID n.sp.NOTARIZED_HEIGHT n.sp.MoM n.sp.MoMdepth}) := by
  have hheight : ¬height.toInt≤0 := by omega
  simp [hushStateupdate,UpdateArgs.plain,Node.mapState_eq,hheight]

/-- The assignments before a notarization, with the MoM that is then current. -/
theorem setNotarized_eq (sp : HushState) (hwf : NotarizedOk sp) (notarizedheight : Int32)
    (srchash desttxid MoM : Uint256) (MoMdepth : Int32) :
    ∃m d,(m=0 ↔ d=0) ∧ setNotarized sp notarizedheight srchash desttxid MoM MoMdepth=
      {sp with NOTARIZED_HEIGHT := notarizedheight,NOTARIZED_HASH := srchash,
               NOTARIZED_DESTTXID := desttxid,MoM := m,MoMdepth := d} := by
  by_cases hMoM : MoM≠0 ∧ 0<(MoMdepth &&& 0xffff).toInt
  · have hdepth : MoMdepth≠0 := by
      rintro rfl
      revert hMoM
      simp
    refine ⟨MoM,MoMdepth,iff_of_false hMoM.1 hdepth,?_⟩
    rw [setNotarized,if_pos hMoM]
  · refine ⟨sp.MoM,sp.MoMdepth,hwf.MoM_iff,?_⟩
    rw [setNotarized,if_neg hMoM]

/-- An accepted notarization overwrites all that was assigned before it. -/
theorem hushEventaddNotarized_overwrites (hN : c.IS_HUSH_NOTARY=0) (sp : HushState)
    {height notarizedheight : Int32} (hlt : notarizedheight.toInt<height.toInt)
    (hash desttxid MoM : Uint256) (MoMdepth : Int32) :
    hushEventaddNotarized c {sp with NOTARIZED_HEIGHT := notarizedheight,
                                     NOTARIZED_HASH := hash,NOTARIZED_DESTTXID := desttxid,
                                     MoM := MoM,MoMdepth := MoMdepth}
        height hash desttxid notarizedheight MoM MoMdepth=
      hushEventaddNotarized c sp height hash desttxid notarizedheight MoM MoMdepth := by
  rw [hushEventaddNotarized_eq c _ hN,hushEventaddNotarized_eq c _ hN]
  rw [hushNotarizedUpdate,hushNotarizedUpdate,if_neg (by omega),if_neg (by omega)]
  unfold hushEventadd
  split
  · rfl
  · rfl

theorem live_notarize (hN : c.IS_HUSH_NOTARY=0) (hwf : NotarizedOk n.sp)
    (height notarizedheight : Int32) (srchash desttxid MoM : Uint256) (MoMdepth : Int32) :
    ReadsBack c n (live c n (.notarize height notarizedheight srchash desttxid MoM MoMdepth)) ∧
      NotarizedOk (live c n (.notarize height notarizedheight srchash desttxid MoM MoMdepth)).2.sp := by
  by_cases hguard : notarizedheight.toInt>n.sp.NOTARIZED_HEIGHT.toInt ∧
      notarizedheight.toInt<height.toInt
  · have hnonneg := hwf.nonneg
    obtain ⟨m,d,hpair,hset⟩ := setNotarized_eq n.sp hwf notarizedheight srchash desttxid MoM MoMdepth
    have hwf' : NotarizedOk (setNotarized n.sp notarizedheight srchash desttxid MoM MoMdepth) := by
      rw [hset]
      exact ⟨hpair,by show 0≤notarizedheight.toInt; omega⟩
    rw [live,if_pos hguard,Node.mapState_eq]
    refine ⟨?_,hushStateupdate_notarizedOk hN _ hwf'⟩
    rw [hushStateupdate_plain (by omega)]
    have hback := readsBack_notarized (c := c) (n := n) hwf' height
    rw [hset] at hback ⊢
    dsimp only at hback ⊢
    rw [hushEventaddNotarized_overwrites hN n.sp hguard.2]
    exact hback
  · rw [live,if_neg hguard]
    exact ⟨.inl ⟨rfl,rfl⟩,hwf⟩

/-- The record of a reorganisation repeats the rewind done before it. -/
theorem live_reorg (hN : c.IS_HUSH_NOTARY=0) (hwf : NotarizedOk n.sp) {height : Int32}
    (hpos : 0<height.toInt) (nTime : BitVec 32) :
    ReadsBack c n (live c n (.reorg height nTime)) ∧
      NotarizedOk (live c n (.reorg height nTime)).2.sp := by
  have hneg : ¬(-height).toInt>0 := by
    have hmin : height≠BitVec.intMin 32 := by
      rintro rfl
      revert hpos
      decide
    rw [BitVec.toInt_neg_of_ne_intMin hmin]
    omega
  have hne : -height≠0 := by
    intro hzero
    rw [BitVec.neg_eq_zero_iff.1 hzero] at hpos
    exact absurd hpos (by decide)
  have hsame : hushStateupdate c (.reorged height nTime) (n.mapState (hushEventRewind · height))=
      hushStateupdate c (.reorged height nTime) n := by
    have hargs : (UpdateArgs.reorged height nTime).HUSHheight≠0 := hne
    rw [hushStateupdate_hushheight hpos hargs,hushStateupdate_hushheight hpos hargs]
    have hrewind := hushEventaddHushheight_rewind c n.sp height (-height) nTime hneg
    rw [Node.mapState_eq]
    dsimp only [UpdateArgs.reorged,UpdateArgs.plain]
    rw [hrewind]
  rw [live,hsame]
  refine ⟨hushStateupdate_readsBack _ hwf fun hP => ?_,hushStateupdate_notarizedOk hN _ hwf⟩
  exact absurd rfl hP.2.2.2

/-- One step of the live node reads back, and the next one starts well formed. -/
theorem live_readsBack (hN : c.IS_HUSH_NOTARY=0) (hwf : NotarizedOk n.sp) (s : Step)
    (hs : s.Persists c) : ReadsBack c n (live c n s) ∧ NotarizedOk (live c n s).2.sp := by
  cases s with
  | update a => exact ⟨hushStateupdate_readsBack a hwf hs,hushStateupdate_notarizedOk hN a hwf⟩
  | notarize height notarizedheight srchash desttxid MoM MoMdepth =>
    exact live_notarize hN hwf height notarizedheight srchash desttxid MoM MoMdepth
  | reorg height nTime => exact live_reorg hN hwf hs nTime
  | regtest height blockhash txhash => exact hs.elim

end Update

section Run

variable {c : Chain}

/-- The parser walks the file of a run record by record, in the states the live
node went through. -/
theorem replayLoop_liveRun (hN : c.IS_HUSH_NOTARY=0) (u : Nat → Uninit) (f : List Byte)
    (ss : List Step) (hss : ∀s∈ss,s.Persists c) (n : Node) (hwf : NotarizedOk n.sp) (p k : Nat)
    (hat : At f p (liveRun c ss n).1) (hk : (liveRun c ss n).1.length<k) :
    replayLoop c u f k p n=some (liveRun c ss n).2 := by
  induction ss generalizing n p k with
  | nil =>
    obtain ⟨k,rfl⟩ : ∃k',k=k'+1 := ⟨k-1,by omega⟩
    have hend := hat.length_eq
    rw [replayLoop,hushParsestatefiledata,if_neg (by simp [liveRun] at hend; omega)]
    rfl
  | cons s ss ih =>
    obtain ⟨hback,hwf₁⟩ := live_readsBack hN hwf s (hss s (by simp))
    have hrest := ih (fun s' hs' => hss s' (by simp [hs'])) (live c n s).2 hwf₁
    rw [liveRun] at hat hk ⊢
    dsimp only at hat hk ⊢
    rw [List.length_append] at hk
    obtain ⟨hnil,hsame⟩ | ⟨hne,hparse⟩ := hback
    · rw [hnil] at hat hk
      rw [hsame] at hat hk hrest ⊢
      exact hrest p k hat (by simpa using hk)
    · obtain ⟨k,rfl⟩ : ∃k',k=k'+1 := ⟨k-1,by omega⟩
      obtain ⟨func,hfunc⟩ := hparse (u p) f p _ hat
      have hpos := List.length_pos_iff.2 hne
      rw [replayLoop,hfunc]
      exact hrest _ k hat.advance (by omega)

/-- The chain after a restart: the other daemon may answer differently. -/
def Chain.restarted (c : Chain)
    (verify : String → String → Int32 → Int32 → Uint256 → Uint256 → Int) : Chain :=
  {c with hushVerifynotarization := verify}

theorem hushEventaddNotarized_restarted (hN : c.IS_HUSH_NOTARY=0)
    (verify : String → String → Int32 → Int32 → Uint256 → Uint256 → Int) :
    hushEventaddNotarized (c.restarted verify)=hushEventaddNotarized c := by
  have hN' : (c.restarted verify).IS_HUSH_NOTARY=0 := hN
  funext sp height hash desttxid notarizedheight MoM MoMdepth
  rw [hushEventaddNotarized_eq c sp hN,hushEventaddNotarized_eq _ sp hN']
  rfl

theorem hushParsestatefiledata_restarted (hN : c.IS_HUSH_NOTARY=0)
    (verify : String → String → Int32 → Int32 → Uint256 → Uint256 → Int) (u : Uninit)
    (f : List Byte) :
    hushParsestatefiledata (c.restarted verify) u f=hushParsestatefiledata c u f := by
  have hnot : parseNotarized (c.restarted verify) u f=parseNotarized c u f := by
    unfold parseNotarized
    rw [hushEventaddNotarized_restarted hN]
  have hpayload : parsePayload (c.restarted verify) u f=parsePayload c u f := by
    unfold parsePayload
    rw [hnot]
    rfl
  unfold hushParsestatefiledata
  rw [hpayload]

theorem replayLoop_restarted (hN : c.IS_HUSH_NOTARY=0)
    (verify : String → String → Int32 → Int32 → Uint256 → Uint256 → Int) (u : Nat → Uninit)
    (f : List Byte) (k p : Nat) (n : Node) :
    replayLoop (c.restarted verify) u f k p n=replayLoop c u f k p n := by
  induction k generalizing p n with
  | zero => rfl
  | succ k ih =>
    rw [replayLoop,replayLoop,hushParsestatefiledata_restarted hN]
    split
    · rfl
    · exact ih _ _

/-- The replayed node has the notarizations, events and notaries of the live one. -/
def Restores (live replayed : Node) : Prop :=
  replayed.sp.NPOINTS=live.sp.NPOINTS ∧
  replayed.sp.NOTARIZED_HEIGHT=live.sp.NOTARIZED_HEIGHT ∧
  replayed.sp.NOTARIZED_HASH=live.sp.NOTARIZED_HASH ∧
  replayed.sp.NOTARIZED_DESTTXID=live.sp.NOTARIZED_DESTTXID ∧
  replayed.sp.MoM=live.sp.MoM ∧ replayed.sp.MoMdepth=live.sp.MoMdepth ∧
  replayed.sp.SAVEDHEIGHT=live.sp.SAVEDHEIGHT ∧
  replayed.sp.SAVEDTIMESTAMP=live.sp.SAVEDTIMESTAMP ∧
  replayed.sp.Hush_events=live.sp.Hush_events ∧ replayed.Pubkeys=live.Pubkeys

/-- A restart restores every run whose ratifications the parser replays. -/
theorem restart_restores (c : Chain) (hN : c.IS_HUSH_NOTARY=0)
    (verify : String → String → Int32 → Int32 → Uint256 → Uint256 → Int) (u : Nat → Uninit)
    (Pubkeys : List KnotariesEntry) (hwmheight : Int32) (ss : List Step)
    (hss : ∀s∈ss,s.Persists c) :
    ∃n',replay (c.restarted verify) u (liveRun c ss (.fresh Pubkeys hwmheight)).1
        (.fresh Pubkeys hwmheight)=some n' ∧
      Restores (liveRun c ss (.fresh Pubkeys hwmheight)).2 n' := by
  have hloop := replayLoop_liveRun hN u (liveRun c ss (.fresh Pubkeys hwmheight)).1 ss hss
    (.fresh Pubkeys hwmheight) NotarizedOk.empty 0 _ (At.start _) (Nat.lt_succ_self _)
  refine ⟨(liveRun c ss (.fresh Pubkeys hwmheight)).2,?_,?_⟩
  · rw [replay,replayLoop_restarted hN]
    exact hloop
  · exact ⟨rfl,rfl,rfl,rfl,rfl,rfl,rfl,rfl,rfl,rfl⟩

/-- A smart chain as it runs: nothing sets `HUSH_EXTERNAL_NOTARIES`. -/
def smartChain : Chain := ⟨"ZDEEX",0,0,fun _ _ _ _ _ _ => 0⟩

def noGarbage : Uninit := ⟨0,0,0,0,0,0,0,0,fun _ => 0,fun _ => 0⟩

/-- The table that `hush_notarysinit` allocates. -/
def emptyPubkeys : List KnotariesEntry := List.replicate pubkeysSize ⟨0,0,[]⟩

theorem restart_restores_reorg :
    ∃n',replay (smartChain.restarted fun _ _ _ _ _ _ => -1) (fun _ => noGarbage)
        (liveRun smartChain
          [.update (.connected 10 1600),.notarize 11 8 5 6 7 3,.update (.connected 11 1700),
            .reorg 11 1750,.update (.opreturn 11 9 0 [0x4b,1,2] 1 (by decide)),
            .update (.connected 11 1750)] (.fresh emptyPubkeys 0)).1
        (.fresh emptyPubkeys 0)=some n' ∧
      Restores (liveRun smartChain
          [.update (.connected 10 1600),.notarize 11 8 5 6 7 3,.update (.connected 11 1700),
            .reorg 11 1750,.update (.opreturn 11 9 0 [0x4b,1,2] 1 (by decide)),
            .update (.connected 11 1750)] (.fresh emptyPubkeys 0)).2 n' := by
  refine restart_restores smartChain rfl _ _ emptyPubkeys 0 _ ?_
  simp [Step.Persists,UpdateArgs.WritesPubkeys,UpdateArgs.connected,UpdateArgs.opreturn,
    UpdateArgs.plain]

/-- Seven new notaries, ratified at height 100. -/
def ratification : Step :=
  .update (.ratified 100 [0x102,0x202,0x302,0x402,0x502,0x602,0x702] (by decide))

/-- The live node records the ratification, the restarted one skips its record. -/
theorem ratified_notaries_lost :
    ¬∃n',replay (smartChain.restarted fun _ _ _ _ _ _ => 0) (fun _ => noGarbage)
        (liveRun smartChain [ratification] (.fresh emptyPubkeys 0)).1
        (.fresh emptyPubkeys 0)=some n' ∧
      Restores (liveRun smartChain [ratification] (.fresh emptyPubkeys 0)).2 n' := by
  have hreplay : replay (smartChain.restarted fun _ _ _ _ _ _ => 0) (fun _ => noGarbage)
      (liveRun smartChain [ratification] (.fresh emptyPubkeys 0)).1
      (.fresh emptyPubkeys 0)=some (.fresh emptyPubkeys 0) := by decide +kernel
  have hlive : (liveRun smartChain [ratification]
      (.fresh emptyPubkeys 0)).2.sp.Hush_events.length=1 := by decide +kernel
  rintro ⟨n',hn',hrestores⟩
  obtain rfl := Option.some.inj (hreplay.symm.trans hn')
  have hevents := hrestores.2.2.2.2.2.2.2.2.1
  rw [← hevents] at hlive
  exact absurd hlive (by decide)

end Run

end Zdeex.Notary
