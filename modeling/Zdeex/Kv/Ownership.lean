import Zdeex.Kv.HushKv

namespace Zdeex.Kv

open Zdeex.Framework

section Update

variable {c : KvChain} {kv kv' : Store} {call : KvCall} {e : HushKv}

theorem hushKvsearch_alive {height : Height} {key : List Byte} (hentry : kv.lookup key=some e)
    (halive : ¬expired height e) : hushKvsearch kv height key=(kv,some e) := by
  simp [hushKvsearch,hentry,halive]

theorem hushKvsearch_expired {height : Height} {key : List Byte} (hentry : kv.lookup key=some e)
    (hexpired : expired height e) : hushKvsearch kv height key=(kv.erase key,none) := by
  simp [hushKvsearch,hentry,hexpired]

/-- The search only touches the entry of its own key. -/
theorem lookup_hushKvsearch {height : Height} {key other : List Byte} (hne : other≠key) :
    (hushKvsearch kv height key).1.lookup other=kv.lookup other := by
  rw [hushKvsearch]
  split
  · rfl
  · split
    · exact AList.lookup_erase_ne hne
    · rfl

/-- A call that gets to the table names a key that is not empty. -/
theorem messageKey_ne_nil (hreaches : call.reaches c=some true) :
    messageKey call.opretbuf≠[] := by
  intro hnil
  rw [KvCall.reaches] at hreaches
  split at hreaches
  · simp at hreaches
  · split at hreaches
    · simp at hreaches
    · rename_i hlen
      have hzero : keylen call.opretbuf=0 := by
        have hkey := congrArg List.length hnil
        rw [messageKey,List.length_take,List.length_drop,List.length_nil] at hkey
        omega
      simp [hzero,hushKvfee] at hreaches

/-- A call to a key that is not empty returns. -/
theorem reaches_isSome (hkey : messageKey call.opretbuf≠[]) : (call.reaches c).isSome := by
  have hlen : keylen call.opretbuf≠0 := by
    intro hzero
    apply hkey
    rw [messageKey,hzero,List.take_zero]
  have hk : (if keylen call.opretbuf>32 then 32 else keylen call.opretbuf)≠0 := by
    split
    · decide
    · exact hlen
  rw [KvCall.reaches]
  split
  · rfl
  · split
    · rfl
    · rw [hushKvfee,if_neg hk]
      rfl

theorem hushKvupdate_skipped (hreaches : call.reaches c=some false) :
    hushKvupdate c kv call=some kv := by
  rw [hushKvupdate,hreaches]
  rfl

theorem hushKvupdate_reached (hreaches : call.reaches c=some true) :
    hushKvupdate c kv call=
      let (kv,found) := hushKvsearch kv (messageHeight call.opretbuf) (messageKey call.opretbuf)
      if refused c call.opretbuf found then some kv
      else some (kv.insert (messageKey call.opretbuf) (call.written found)) := by
  rw [hushKvupdate,hreaches]
  simp only [Option.map_some,if_true]
  split
  · rfl
  · rfl

/-- No update leaves an entry under the empty key. -/
theorem lookup_nil_hushKvupdate (hnone : kv.lookup []=none)
    (hupdate : hushKvupdate c kv call=some kv') : kv'.lookup []=none := by
  cases hreaches : call.reaches c with
  | none =>
    rw [hushKvupdate,hreaches] at hupdate
    simp at hupdate
  | some reached =>
    cases reached with
    | false =>
      rw [hushKvupdate_skipped hreaches] at hupdate
      rw [← Option.some.inj hupdate]
      exact hnone
    | true =>
      have hne := messageKey_ne_nil hreaches
      have hsearch : (hushKvsearch kv (messageHeight call.opretbuf)
          (messageKey call.opretbuf)).1.lookup []=kv.lookup [] :=
        lookup_hushKvsearch hne.symm
      rw [hushKvupdate_reached hreaches] at hupdate
      simp only at hupdate
      split at hupdate
      · rw [← Option.some.inj hupdate,hsearch]
        exact hnone
      · rw [← Option.some.inj hupdate,AList.lookup_insert_ne hne.symm,hsearch]
        exact hnone

theorem lookup_nil_run {calls : List KvCall} (hnone : kv.lookup []=none)
    (hrun : run (hushKvupdate c) calls kv=some kv') : kv'.lookup []=none := by
  induction calls generalizing kv with
  | nil =>
    rw [← Option.some.inj hrun]
    exact hnone
  | cons call calls ih =>
    obtain ⟨next,hstep,hrest⟩ := Option.bind_eq_some_iff.mp hrun
    exact ih (lookup_nil_hushKvupdate hnone hstep) hrest

/-- An update whose signature fails keeps the entry unless the height it names
is past the entry's life. -/
theorem unsigned_update_alive (hentry : kv.lookup (messageKey call.opretbuf)=some e)
    (hrefused : refused c call.opretbuf (some e))
    (halive : ¬expired (messageHeight call.opretbuf) e) (hreaches : call.reaches c=some true) :
    hushKvupdate c kv call=some kv := by
  rw [hushKvupdate_reached hreaches,hushKvsearch_alive hentry halive]
  simp only [if_pos hrefused]

/-- Past the entry's life it is replaced, signature or not. -/
theorem unsigned_update_expired (hentry : kv.lookup (messageKey call.opretbuf)=some e)
    (hexpired : expired (messageHeight call.opretbuf) e) (hreaches : call.reaches c=some true) :
    hushKvupdate c kv call=some ((kv.erase (messageKey call.opretbuf)).insert
      (messageKey call.opretbuf) (call.written none)) := by
  have hnot : ¬refused c call.opretbuf none := id
  rw [hushKvupdate_reached hreaches,hushKvsearch_expired hentry hexpired]
  simp only [if_neg hnot]

end Update

/-- After any calls, an update of an owned entry whose signature does not verify
leaves the entry as it is exactly when the update is turned down before the search,
names a height within the entry's life, or writes what is stored. -/
theorem owned_entry_kept_iff (c : KvChain) (calls : List KvCall) (kv : Store)
    (hrun : run (hushKvupdate c) calls ∅=some kv) (call : KvCall) (e : HushKv)
    (hentry : kv.lookup (messageKey call.opretbuf)=some e) (howned : e.pubkey≠0)
    (hsig : c.hushKvsigverify (messageKey call.opretbuf++e.value) e.pubkey
      (messageSig call.opretbuf)<0) :
    (∃kv',hushKvupdate c kv call=some kv' ∧ kv'.lookup (messageKey call.opretbuf)=some e) ↔
      call.reaches c=some false ∨ ¬expired (messageHeight call.opretbuf) e ∨
        call.written none=e := by
  have hkey : messageKey call.opretbuf≠[] := by
    intro hnil
    rw [hnil,lookup_nil_run (AList.lookup_empty []) hrun] at hentry
    simp at hentry
  obtain ⟨reached,hreaches⟩ := Option.isSome_iff_exists.mp (reaches_isSome (c := c) hkey)
  cases reached with
  | false =>
    refine iff_of_true ⟨kv,hushKvupdate_skipped hreaches,hentry⟩ (.inl hreaches)
  | true =>
    by_cases hexpired : expired (messageHeight call.opretbuf) e
    · rw [unsigned_update_expired hentry hexpired hreaches]
      constructor
      · rintro ⟨kv',hkv,hlookup⟩
        rw [← Option.some.inj hkv,AList.lookup_insert] at hlookup
        exact .inr (.inr (Option.some.inj hlookup))
      · rintro (hskipped | halive | hsame)
        · rw [hreaches] at hskipped
          simp at hskipped
        · exact absurd hexpired halive
        · exact ⟨_,rfl,by rw [AList.lookup_insert,hsame]⟩
    · refine iff_of_true ⟨kv,?_,hentry⟩ (.inr (.inl hexpired))
      exact unsigned_update_alive hentry ⟨howned,hsig⟩ hexpired hreaches

/-- The OP_RETURN of an update without a signature. -/
def unsignedMessage (height : Height) (key value : List Byte) (pubkey : Uint256) : List Byte :=
  0x4b::(toBytes (BitVec.ofNat 16 key.length)++(toBytes (BitVec.ofNat 16 value.length)++
    (toBytes height++(toBytes (0 : BitVec 32)++(key++(value++toBytes pubkey))))))

/-- A chain on which no missing signature verifies. -/
def unsignedFails : KvChain := ⟨"ZDEEX",fun _ _ _ => -1⟩

def ownerCall : KvCall := ⟨100,unsignedMessage 100 [0x61] [0x62] 9,[],100000⟩

/-- Another party's update in the block after, with a height within the entry's life. -/
def honestCall : KvCall := ⟨101,unsignedMessage 101 [0x61] [0x63] 5,[],100000⟩

/-- The same update with a height past the one day the entry lives. -/
def takeoverCall : KvCall := ⟨101,unsignedMessage 2000 [0x61] [0x63] 5,[],100000⟩

def ownerStore : Store := (∅ : Store).insert [0x61] ⟨9,[0x62],100,0⟩

theorem ownerCall_stored :
    run (hushKvupdate unsignedFails) [ownerCall] ∅=some ownerStore := rfl

theorem owned_entry_kept_iff_honest :
    (∃kv',hushKvupdate unsignedFails ownerStore honestCall=some kv' ∧
        kv'.lookup [0x61]=some ⟨9,[0x62],100,0⟩) ↔
      honestCall.reaches unsignedFails=some false ∨
        ¬expired (messageHeight honestCall.opretbuf) ⟨9,[0x62],100,0⟩ ∨
        honestCall.written none=⟨9,[0x62],100,0⟩ :=
  owned_entry_kept_iff unsignedFails [ownerCall] ownerStore ownerCall_stored honestCall
    ⟨9,[0x62],100,0⟩ (by decide +kernel) (by decide) (by decide)

/-- The entry lives until height 1540, and the unsigned update in block 101 that
names height 2000 takes it over. -/
theorem unsigned_takeover :
    run (hushKvupdate unsignedFails) [ownerCall] ∅=some ownerStore ∧
      messageKey takeoverCall.opretbuf=[0x61] ∧
      ownerStore.lookup [0x61]=some ⟨9,[0x62],100,0⟩ ∧
      ¬expired takeoverCall.blockHeight ⟨9,[0x62],100,0⟩ ∧
      unsignedFails.hushKvsigverify [0x61,0x62] 9 (messageSig takeoverCall.opretbuf)<0 ∧
      (hushKvupdate unsignedFails ownerStore takeoverCall).map (·.lookup [0x61])=
        some (some ⟨5,[0x63],2000,0⟩) := by
  refine ⟨ownerCall_stored,?_⟩
  decide +kernel

section RoundTrip

/-- The entry that a message describes. -/
def messageEntry (opretbuf : List Byte) : HushKv :=
  ⟨messagePubkey opretbuf,messageValue opretbuf,messageHeight opretbuf,messageFlags opretbuf⟩

/-- Searches return the entry through the end of its duration and nothing afterwards. -/
def Answers (kv : Store) (key : List Byte) (e : HushKv) : Prop :=
  ∀current_height : Height,
    (current_height.toInt≤e.height.toInt+(hushKvduration e.flags).toInt →
      (hushKvsearch kv current_height key).2=some e) ∧
    (current_height.toInt>e.height.toInt+(hushKvduration e.flags).toInt →
      (hushKvsearch kv current_height key).2=none)

variable {c : KvChain} {kv : Store} {call : KvCall}

/-- A paid and well-formed message gets to the table. -/
theorem reaches_of_paid {fee : BitVec 64} (hsym : c.SMART_CHAIN_SYMBOL≠"")
    (hfits : sizeFits call.opretbuf)
    (hfee : hushKvfee (messageFlags call.opretbuf) call.opretbuf.length
      (keylen call.opretbuf)=some fee) (hpaid : fee.toNat ≤ call.value.toNat) :
    call.reaches c=some true := by
  have hshort : ¬keylen call.opretbuf+13 > call.opretbuf.length := by
    rcases hfits with h | h | h <;> rw [coresize] at h <;> omega
  rw [KvCall.reaches,if_neg hsym,if_neg hshort,hfee,Option.map_some]
  exact congrArg some (decide_eq_true ⟨hpaid,hfits⟩)

theorem hushKvfee_isSome (flags : BitVec 32) (opretlen : Nat) {keylen : Nat} (h : 1≤keylen) :
    ∃fee,hushKvfee flags opretlen keylen=some fee := by
  have hk : (if keylen>32 then 32 else keylen)≠0 := by
    split <;> omega
  rw [hushKvfee,if_neg hk]
  exact ⟨_,rfl⟩

theorem hushKvupdate_new (hreaches : call.reaches c=some true)
    (hnone : kv.lookup (messageKey call.opretbuf)=none) :
    hushKvupdate c kv call=
      some (kv.insert (messageKey call.opretbuf) (call.written none)) := by
  have hsearch : hushKvsearch kv (messageHeight call.opretbuf) (messageKey call.opretbuf)=
      (kv,none) := by
    rw [hushKvsearch,hnone]
  have hnot : ¬refused c call.opretbuf none := id
  rw [hushKvupdate_reached hreaches,hsearch]
  simp only [if_neg hnot]

theorem hushKvsearch_insert (key : List Byte) (e : HushKv) (current_height : Height) :
    (hushKvsearch (kv.insert key e) current_height key).2=
      if expired current_height e then none else some e := by
  rw [hushKvsearch,AList.lookup_insert]
  dsimp only
  split_ifs <;> rfl

theorem duration_nonneg (flags : BitVec 32) : 0≤(hushKvduration flags).toInt := by
  have hdays : hushKvnumdays flags≤365 := min_le_right _ _
  have hlt : hushKvnumdays flags*HUSH_KVDURATION<2^31 := by
    rw [HUSH_KVDURATION]
    omega
  rw [hushKvduration,BitVec.toInt_eq_toNat_of_lt]
  · exact Int.natCast_nonneg _
  · rw [BitVec.toNat_ofNat]
    omega

theorem hushKvduration_zero : hushKvduration 0=1440 := by decide

theorem toInt_duration_zero : (hushKvduration 0).toInt=1440 := by decide

/-- The end of one day, as the code adds it. -/
theorem toInt_add_day (height : Height) (h : height.toInt+1440<2^31) :
    (height+1440).toInt=height.toInt+1440 := by
  have hlow := BitVec.le_toInt height
  rw [BitVec.toInt_add]
  change (height.toInt+1440).bmod (2^32)=_
  exact Int.bmod_eq_of_le (by omega) (by omega)

theorem toInt_add_day_wraps (height : Height) (h : ¬height.toInt+1440<2^31) :
    (height+1440).toInt<0 := by
  have hhigh := BitVec.toInt_lt (x := height)
  rw [BitVec.toInt_add]
  change (height.toInt+1440).bmod (2^32)<0
  rw [Int.bmod_eq_emod,if_pos (by omega)]
  omega

/-- What an update of a new key stores is what a search returns exactly when its flags
are zero and the end of its day is a height. -/
theorem newEntry_answers_iff (c : KvChain) (kv : Store) (call : KvCall)
    (hsym : c.SMART_CHAIN_SYMBOL≠"") (hnone : kv.lookup (messageKey call.opretbuf)=none)
    (hkey : 1≤keylen call.opretbuf) (hfits : sizeFits call.opretbuf)
    (hpaid : ∀fee,hushKvfee (messageFlags call.opretbuf) call.opretbuf.length
      (keylen call.opretbuf)=some fee → fee.toNat ≤ call.value.toNat) :
    (∃kv',hushKvupdate c kv call=some kv' ∧
        Answers kv' (messageKey call.opretbuf) (messageEntry call.opretbuf)) ↔
      messageFlags call.opretbuf=0 ∧ (messageHeight call.opretbuf).toInt+1440<2^31 := by
  obtain ⟨fee,hfee⟩ := hushKvfee_isSome (messageFlags call.opretbuf) call.opretbuf.length hkey
  have hupdate := hushKvupdate_new (reaches_of_paid hsym hfits hfee (hpaid fee hfee)) hnone
  rw [hupdate]
  constructor
  · rintro ⟨_,hkv',hanswers⟩
    obtain rfl := Option.some.inj hkv'
    have hflags : messageFlags call.opretbuf=0 := by
      have hfirst := (hanswers (BitVec.intMin 32)).1 ?_
      · rw [hushKvsearch_insert] at hfirst
        split_ifs at hfirst
        exact (congrArg HushKv.flags (Option.some.inj hfirst)).symm
      · have hlow := BitVec.le_toInt (messageHeight call.opretbuf)
        have hduration := duration_nonneg (messageFlags call.opretbuf)
        have hmin : (BitVec.intMin 32).toInt=-2147483648 := by decide
        change (BitVec.intMin 32).toInt≤(messageHeight call.opretbuf).toInt+
          (hushKvduration (messageFlags call.opretbuf)).toInt
        omega
    refine ⟨hflags,?_⟩
    by_contra hwraps
    have hlast := (hanswers (BitVec.intMax 32)).1 ?_
    · rw [hushKvsearch_insert,if_pos] at hlast
      · cases hlast
      · have hneg := toInt_add_day_wraps _ hwraps
        have hmax : (BitVec.intMax 32).toInt=2147483647 := by decide
        change (BitVec.intMax 32).toInt>(messageHeight call.opretbuf+hushKvduration 0).toInt
        rw [hushKvduration_zero]
        omega
    · have hmax : (BitVec.intMax 32).toInt=2147483647 := by decide
      change (BitVec.intMax 32).toInt≤(messageHeight call.opretbuf).toInt+
        (hushKvduration (messageFlags call.opretbuf)).toInt
      rw [hflags,toInt_duration_zero]
      omega
  · rintro ⟨hflags,hday⟩
    refine ⟨_,rfl,fun current_height => ?_⟩
    have hentry : call.written none=messageEntry call.opretbuf := by
      rw [messageEntry,hflags]
      rfl
    have hexpired : expired current_height (messageEntry call.opretbuf) ↔
        current_height.toInt>(messageHeight call.opretbuf).toInt+1440 := by
      rw [←toInt_add_day _ hday,expired,messageEntry,hflags,hushKvduration_zero]
    have hend : (messageEntry call.opretbuf).height.toInt+
        (hushKvduration (messageEntry call.opretbuf).flags).toInt=
          (messageHeight call.opretbuf).toInt+1440 := by
      rw [messageEntry,hflags,toInt_duration_zero]
    rw [hentry,hushKvsearch_insert,hend]
    refine ⟨fun halive => ?_,fun hlate => ?_⟩
    · rw [if_neg (fun h => absurd (hexpired.mp h) (by omega))]
    · rw [if_pos (hexpired.mpr hlate)]

theorem ownerCall_answers :
    (∃kv',hushKvupdate unsignedFails ∅ ownerCall=some kv' ∧
        Answers kv' (messageKey ownerCall.opretbuf) (messageEntry ownerCall.opretbuf)) ↔
      messageFlags ownerCall.opretbuf=0 ∧
        (messageHeight ownerCall.opretbuf).toInt+1440<2^31 :=
  newEntry_answers_iff unsignedFails ∅ ownerCall (by decide) rfl (by decide) (by decide) (by
    intro fee hfee
    rw [←Option.some.inj hfee]
    decide)

/-- An update that pays for two days. -/
def twoDayCall : KvCall :=
  ⟨100,0x4b::(toBytes (1 : BitVec 16)++(toBytes (1 : BitVec 16)++(toBytes (100 : Height)++
    (toBytes (4 : BitVec 32)++[0x61,0x62])))),[],100000⟩

/-- The entry is stored with flags of zero. -/
theorem twoDayCall_flags_lost :
    (∅ : Store).lookup (messageKey twoDayCall.opretbuf)=none ∧
      1≤keylen twoDayCall.opretbuf ∧ sizeFits twoDayCall.opretbuf ∧
      (hushKvfee (messageFlags twoDayCall.opretbuf) twoDayCall.opretbuf.length
        (keylen twoDayCall.opretbuf)).map BitVec.toNat=some 100000 ∧
      ¬∃kv',hushKvupdate unsignedFails ∅ twoDayCall=some kv' ∧
        Answers kv' (messageKey twoDayCall.opretbuf) (messageEntry twoDayCall.opretbuf) := by
  refine ⟨rfl,by decide,by decide,by decide,?_⟩
  rintro ⟨kv',hkv',hanswers⟩
  obtain rfl := Option.some.inj hkv'
  have hfound := (hanswers 100).1 (by decide)
  exact absurd (congrArg (Option.map HushKv.flags) hfound) (by decide +kernel)

end RoundTrip

end Zdeex.Kv
