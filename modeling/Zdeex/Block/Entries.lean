import Zdeex.Block.CoinsView

namespace Zdeex.Coins.CCoins

open Zdeex.Block

theorem isPruned_iff (c : CCoins) : c.isPruned=true ↔ ∀n,c.unspentOutput n=none := by
  simp only [isPruned,List.all_eq_true,unspentOutput_eq_filter,Option.filter_eq_none_iff]
  constructor
  · intro h n o ho
    simpa using h o (List.mem_of_getElem? ho)
  · intro h o ho
    obtain ⟨n,hn⟩ := List.getElem?_of_mem ho
    simpa using h n o hn

theorem isAvailable_iff (c : CCoins) (n : Nat) :
    c.isAvailable n=true ↔ ∃o,c.unspentOutput n=some o := by
  unfold unspentOutput isAvailable
  cases h : c.vout[n]? with
  | none => simp
  | some o => cases ho : o.isNull <;> simp [ho]

theorem not_pruned_of_unspent {c : CCoins} {n : Nat} {o : CTxOut} (h : c.unspentOutput n=some o) :
    c.isPruned=false := by
  rw [← Bool.not_eq_true,isPruned_iff]
  intro hall
  rw [hall n] at h
  cases h

theorem isNull_of_unspent {c : CCoins} {n : Nat} {o : CTxOut} (h : c.unspentOutput n=some o) :
    o.isNull=false := by
  rw [unspentOutput_eq_filter,Option.filter_eq_some_iff] at h
  simpa using h.2

theorem mem_of_unspent {c : CCoins} {n : Nat} {o : CTxOut} (h : c.unspentOutput n=some o) :
    o∈c.vout := by
  rw [unspentOutput_eq_filter,Option.filter_eq_some_iff] at h
  exact List.mem_of_getElem? h.1

theorem seen_of_not_pruned {c : CCoins} (h : c.isPruned=false) :
    seen (some c)=some ⟨c.fCoinBase,c.nHeight,c.nVersion,c.unspentOutput⟩ := by
  simp [seen,h]

theorem isPruned_eq_of_seen {c d : CCoins} (h : seen (some c)=seen (some d)) :
    c.isPruned=d.isPruned := by
  rw [Bool.eq_iff_iff,← seen_eq_none_iff,← seen_eq_none_iff,h]

theorem unspentOutput_eq_of_seen {c d : CCoins} (h : seen (some c)=seen (some d)) :
    c.unspentOutput=d.unspentOutput := by
  have hpruned := isPruned_eq_of_seen h
  cases hc : c.isPruned with
  | true =>
    have hd : d.isPruned=true := hpruned.symm.trans hc
    funext n
    rw [(isPruned_iff c).mp hc n,(isPruned_iff d).mp hd n]
  | false =>
    rw [seen_of_not_pruned hc,seen_of_not_pruned (hpruned.symm.trans hc)] at h
    exact congrArg Unspent.output (Option.some.inj h)

@[simp] theorem isPruned_clear : clear.isPruned=true := rfl

@[simp] theorem vout_cleanup_eq_nil (c : CCoins) : c.cleanup.vout=[] ↔ c.isPruned=true := by
  simp only [cleanup,List.rdropWhile_eq_nil_iff,isPruned,List.all_eq_true]

theorem unspentOutput_spend (c : CCoins) (n m : Nat) :
    (c.spend n).unspentOutput m=if m=n then none else c.unspentOutput m := by
  rw [spend,unspentOutput_cleanup,unspentOutput_eq_filter,unspentOutput_eq_filter]
  dsimp only
  rw [List.getElem?_set]
  by_cases hm : n=m
  · subst hm
    by_cases hlen : n<c.vout.length
    · simp [hlen,Option.filter,CTxOut.isNull,CTxOut.setNull]
    · simp [hlen]
  · rw [if_neg hm,if_neg (Ne.symm hm)]

/-- Spending never brings outputs back. -/
theorem isPruned_spend {c : CCoins} (n : Nat) (h : c.isPruned=true) : (c.spend n).isPruned=true := by
  rw [isPruned_iff] at h ⊢
  intro m
  rw [unspentOutput_spend,h m,ite_self]

private theorem getElem?_pad (l : List CTxOut) (k n : Nat) :
    ((l++List.replicate k CTxOut.setNull)[n]?).filter (fun o => !o.isNull)=
      (l[n]?).filter (fun o => !o.isNull) := by
  by_cases hn : n<l.length
  · rw [List.getElem?_append_left hn]
  · have hnone : l[n]?=none := List.getElem?_eq_none (by omega)
    rw [hnone,List.getElem?_append_right (by omega),List.getElem?_replicate]
    split_ifs <;> simp [Option.filter,CTxOut.isNull,CTxOut.setNull]

theorem unspentOutput_set (c : CCoins) (n m : Nat) {o : CTxOut} (ho : o.isNull=false) :
    unspentOutput {c with
      vout := (c.vout++List.replicate (n+1-c.vout.length) CTxOut.setNull).set n o} m=
      if m=n then some o else c.unspentOutput m := by
  rw [unspentOutput_eq_filter,unspentOutput_eq_filter]
  dsimp only
  rw [List.getElem?_set]
  by_cases hm : n=m
  · subst hm
    have hlen : n<(c.vout++List.replicate (n+1-c.vout.length) CTxOut.setNull).length := by
      rw [List.length_append,List.length_replicate]
      omega
    rw [if_pos rfl,if_pos rfl,if_pos hlen]
    simp [Option.filter,ho]
  · rw [if_neg hm,if_neg (Ne.symm hm),getElem?_pad]

/-- An output is put next to the others of a transaction. -/
theorem seen_set {b c : CCoins} {n : Nat} {o : CTxOut} (hbase : b.fCoinBase=c.fCoinBase)
    (hheight : b.nHeight=c.nHeight) (hversion : b.nVersion=c.nVersion)
    (ho : c.unspentOutput n=some o) (hrest : ∀m,m≠n → b.unspentOutput m=c.unspentOutput m) :
    seen (some {b with
      vout := (b.vout++List.replicate (n+1-b.vout.length) CTxOut.setNull).set n o})=
      seen (some c) := by
  have houtput : ∀m,unspentOutput {b with
      vout := (b.vout++List.replicate (n+1-b.vout.length) CTxOut.setNull).set n o} m=
      c.unspentOutput m := by
    intro m
    rw [unspentOutput_set b n m (isNull_of_unspent ho)]
    split_ifs with hm
    · rw [hm,ho]
    · exact hrest m hm
  have hout := (houtput n).trans ho
  rw [seen_of_not_pruned (not_pruned_of_unspent hout),
    seen_of_not_pruned (not_pruned_of_unspent ho)]
  simp only [Option.some.injEq,Unspent.mk.injEq]
  exact ⟨hbase,hheight,hversion,funext houtput⟩

end Zdeex.Coins.CCoins

namespace Zdeex.Block

open Zdeex.Coins

/-- An entry as the view holds it: outputs that can be spent and stored, no spent ones
at the end, and metadata that undo data can carry. -/
structure Stored (c : CCoins) : Prop where
  trimmed : c.cleanup=c
  outputs : ∀o∈c.vout,o=CTxOut.setNull ∨ (CTxOut.Storable o ∧ isUnspendable o.scriptPubKey=false)
  height : c.isPruned=false → 0<c.nHeight ∧ c.nHeight<2^31
  version : c.isPruned=false → 0 ≤ c.nVersion ∧ c.nVersion<2^31

/-- What was spent is put back: the metadata come from the record when the entry is
gone, and from the entry when it is still there. -/
theorem restoreOutput_spend {c d : CCoins} {n : Nat} {o : CTxOut} (hc : Stored c)
    (ho : c.unspentOutput n=some o) (hd : seen (some d)=seen (some (c.spend n))) :
    (restoreOutput (undoRecord c (c.spend n) o) n d).2=true ∧
      seen (some (restoreOutput (undoRecord c (c.spend n) o) n d).1)=seen (some c) := by
  have hc' := CCoins.not_pruned_of_unspent ho
  have hnull := CCoins.isNull_of_unspent ho
  obtain ⟨hpos,hlt⟩ := hc.height hc'
  have hgone : d.isAvailable n=false := by
    rw [← Bool.not_eq_true,CCoins.isAvailable_iff,CCoins.unspentOutput_eq_of_seen hd,
      CCoins.unspentOutput_spend,if_pos rfl]
    simp
  by_cases hlast : (c.spend n).vout=[]
  · have hpruned : (c.spend n).isPruned=true := by simp [CCoins.isPruned,hlast]
    have hdp : d.isPruned=true := (CCoins.isPruned_eq_of_seen hd).trans hpruned
    have hheight : ((c.nHeight%2^32).toNat : Int)=c.nHeight := by omega
    have hne : (c.nHeight%2^32).toNat≠0 := by omega
    simp only [restoreOutput,undoRecord,if_pos hlast,ne_eq,hne,not_false_eq_true,if_true,hdp]
    refine ⟨rfl,CCoins.seen_set (c := c)
      (b := ⟨c.fCoinBase,[],(c.nHeight%2^32).toNat,c.nVersion⟩) rfl hheight rfl ho ?_⟩
    intro m hm
    have hrest := (CCoins.isPruned_iff _).mp hpruned m
    rw [CCoins.unspentOutput_spend,if_neg hm] at hrest
    rw [hrest]
    rfl
  · have hpruned : (c.spend n).isPruned=false := by
      rw [← Bool.not_eq_true]
      intro h
      apply hlast
      rw [CCoins.spend,CCoins.vout_cleanup_eq_nil,← CCoins.isPruned_cleanup]
      exact h
    have hdp : d.isPruned=false := (CCoins.isPruned_eq_of_seen hd).trans hpruned
    rw [CCoins.seen_of_not_pruned hdp,CCoins.seen_of_not_pruned hpruned] at hd
    simp only [Option.some.injEq,Unspent.mk.injEq] at hd
    obtain ⟨hbase,hheight,hversion,houtputs⟩ := hd
    simp only [restoreOutput,undoRecord,if_neg hlast,ne_eq,not_true_eq_false,if_false,hdp,hgone]
    refine ⟨rfl,CCoins.seen_set hbase hheight hversion ho ?_⟩
    intro m hm
    rw [houtputs,CCoins.unspentOutput_spend,if_neg hm]

private theorem length_le_of_unspent {l m : List CTxOut} (hl : l.rdropWhile CTxOut.isNull=l)
    (h : ∀n : Nat,(l[n]?).filter (fun o => !o.isNull)=(m[n]?).filter (fun o => !o.isNull)) :
    l.length ≤ m.length := by
  by_cases hnil : l=[]
  · simp [hnil]
  · have hlast := List.rdropWhile_eq_self_iff.mp hl hnil
    have hget := h (l.length-1)
    rw [← List.getLast?_eq_getElem?,List.getLast?_eq_some_getLast hnil,
      Option.filter_some_pos (by simpa using hlast),eq_comm,Option.filter_eq_some_iff] at hget
    have hlt := (List.getElem?_eq_some_iff.mp hget.1).1
    omega

/-- Two entries of a view that look alike and are not pruned are the same. -/
theorem Stored.eq_of_seen {c d : CCoins} (hc : Stored c) (hd : Stored d)
    (h : seen (some c)=seen (some d)) (hpruned : c.isPruned=false) : c=d := by
  have hunspent : ∀n : Nat,(c.vout[n]?).filter (fun o => !o.isNull)=
      (d.vout[n]?).filter (fun o => !o.isNull) := by
    intro n
    rw [← CCoins.unspentOutput_eq_filter,← CCoins.unspentOutput_eq_filter,
      CCoins.unspentOutput_eq_of_seen h]
  have hlen : c.vout.length=d.vout.length := by
    apply Nat.le_antisymm
    · exact length_le_of_unspent (congrArg CCoins.vout hc.trimmed) hunspent
    · exact length_le_of_unspent (congrArg CCoins.vout hd.trimmed) (fun n => (hunspent n).symm)
  have hnull : ∀e : CCoins,Stored e → ∀o∈e.vout,o.isNull=true → o=CTxOut.setNull := by
    intro e he o ho hon
    rcases he.outputs o ho with rfl | ⟨⟨⟨hpos,-⟩,-⟩,-⟩
    · rfl
    · simp only [CTxOut.isNull,beq_iff_eq] at hon
      omega
  have hvout : c.vout=d.vout := by
    apply List.ext_getElem hlen
    intro n hn hn'
    have hget := hunspent n
    rw [List.getElem?_eq_getElem hn,List.getElem?_eq_getElem hn'] at hget
    cases ho : (c.vout[n]).isNull with
    | false =>
      rw [Option.filter_some_pos (by simpa using ho),eq_comm,Option.filter_eq_some_iff] at hget
      exact (Option.some.inj hget.1).symm
    | true =>
      rw [Option.filter_some_neg (by simpa using ho),eq_comm,Option.filter_eq_none_iff] at hget
      have ho' : (d.vout[n]).isNull=true := by simpa using hget _ rfl
      rw [hnull c hc _ (List.getElem_mem hn) ho,hnull d hd _ (List.getElem_mem hn') ho']
  have hpruned' := (CCoins.isPruned_eq_of_seen h).symm.trans hpruned
  rw [CCoins.seen_of_not_pruned hpruned,CCoins.seen_of_not_pruned hpruned'] at h
  simp only [Option.some.injEq,Unspent.mk.injEq] at h
  obtain ⟨hbase,hheight,hversion,-⟩ := h
  cases c
  cases d
  simp_all

section Stored

theorem stored_cleanup {c : CCoins}
    (outputs : ∀o∈c.vout,o=CTxOut.setNull ∨
      (CTxOut.Storable o ∧ isUnspendable o.scriptPubKey=false))
    (height : c.isPruned=false → 0<c.nHeight ∧ c.nHeight<2^31)
    (version : c.isPruned=false → 0 ≤ c.nVersion ∧ c.nVersion<2^31) : Stored c.cleanup where
  trimmed := by
    simp only [CCoins.cleanup,List.rdropWhile_idempotent]
  outputs := by
    intro o ho
    exact outputs o ((List.rdropWhile_prefix _ _).subset ho)
  height := by
    rw [CCoins.isPruned_cleanup]
    exact height
  version := by
    rw [CCoins.isPruned_cleanup]
    exact version

theorem stored_clear : Stored CCoins.clear where
  trimmed := rfl
  outputs := by simp [CCoins.clear]
  height := by simp
  version := by simp

theorem Stored.spend {c : CCoins} (hc : Stored c) (n : Nat) : Stored (c.spend n) := by
  have hpruned : CCoins.isPruned {c with vout := c.vout.set n CTxOut.setNull}=false →
      c.isPruned=false := by
    intro h
    rw [← CCoins.isPruned_cleanup] at h
    rw [← Bool.not_eq_true] at h ⊢
    exact fun hc => h (CCoins.isPruned_spend n hc)
  apply stored_cleanup
  · intro o ho
    rcases List.mem_or_eq_of_mem_set ho with ho | rfl
    · exact hc.outputs o ho
    · exact .inl rfl
  · exact fun h => hc.height (hpruned h)
  · exact fun h => hc.version (hpruned h)

/-- The outputs of a transaction that a block may hold. -/
structure Storables (tx : CTransaction) : Prop where
  version : 0≤tx.nVersion ∧ tx.nVersion<2^31
  values : ∀o∈tx.vout,0≤o.nValue ∧ o.nValue<2^60

theorem stored_fromTx {tx : CTransaction} {nHeight : Int} (htx : Storables tx)
    (hheight : 0<nHeight ∧ nHeight<2^31) : Stored (CCoins.fromTx tx nHeight) := by
  apply stored_cleanup
  · intro o ho
    obtain ⟨p,hp,rfl⟩ := List.mem_map.mp ho
    by_cases hscript : isUnspendable p.scriptPubKey=true
    · exact .inl (if_pos hscript)
    · rw [if_neg hscript]
      rw [Bool.not_eq_true] at hscript
      have hlen : p.scriptPubKey.length≤MAX_SCRIPT_SIZE := by
        simp only [isUnspendable,Bool.or_eq_false_iff,decide_eq_false_iff_not] at hscript
        omega
      exact .inr ⟨⟨htx.values p hp,hlen⟩,hscript⟩
  · exact fun _ => hheight
  · exact fun _ => htx.version

theorem clearUnspendable_eq_self {c : CCoins} (hc : Stored c) : c.clearUnspendable=c := by
  have hmap : c.vout.map (fun txout =>
      if isUnspendable txout.scriptPubKey then CTxOut.setNull else txout)=c.vout := by
    conv_rhs => rw [← List.map_id c.vout]
    apply List.map_congr_left
    intro o ho
    rcases hc.outputs o ho with rfl | ⟨-,hscript⟩
    · exact ite_self _
    · rw [hscript]
      rfl
  rw [CCoins.clearUnspendable,hmap]
  exact hc.trimmed

/-- A record that can be stored and gives back an output that can be spent. -/
structure SoundUndo (u : CTxInUndo) : Prop where
  storable : u.Storable
  spendable : isUnspendable u.txout.scriptPubKey=false

theorem soundUndo_undoRecord {c c' : CCoins} {n : Nat} {o : CTxOut} (hc : Stored c)
    (ho : c.unspentOutput n=some o) : SoundUndo (undoRecord c c' o) := by
  have hpruned := CCoins.not_pruned_of_unspent ho
  have hnull := CCoins.isNull_of_unspent ho
  have hout : CTxOut.Storable o ∧ isUnspendable o.scriptPubKey=false := by
    rcases hc.outputs o (CCoins.mem_of_unspent ho) with rfl | hout
    · cases hnull
    · exact hout
  obtain ⟨hpos,hlt⟩ := hc.height hpruned
  unfold undoRecord
  split_ifs
  · exact ⟨⟨hout.1,by dsimp only; omega,hc.version hpruned,by dsimp only; omega⟩,hout.2⟩
  · exact ⟨⟨hout.1,by simp,by simp,fun _ => rfl⟩,hout.2⟩

theorem stored_restoreOutput {u : CTxInUndo} {d : CCoins} {n : Nat} (hu : SoundUndo u)
    (hd : Stored d) (hclean : (restoreOutput u n d).2=true) :
    Stored (restoreOutput u n d).1.cleanup := by
  have hmeta : u.nHeight=0 → d.isPruned=false := by
    intro hheight
    simp only [restoreOutput,hheight,ne_eq,not_true_eq_false,if_false,Bool.and_eq_true] at hclean
    simpa using hclean.1
  have hout : u.txout=CTxOut.setNull ∨
      (CTxOut.Storable u.txout ∧ isUnspendable u.txout.scriptPubKey=false) :=
    .inr ⟨hu.storable.txout,hu.spendable⟩
  have hmem : ∀(l : List CTxOut) (k : Nat),∀o∈(l++List.replicate k CTxOut.setNull).set n u.txout,
      o∈l ∨ o=CTxOut.setNull ∨ o=u.txout := by
    intro l k o ho
    rcases List.mem_or_eq_of_mem_set ho with ho | ho
    · rcases List.mem_append.mp ho with ho | ho
      · exact .inl ho
      · exact .inr (.inl (List.eq_of_mem_replicate ho))
    · exact .inr (.inr ho)
  unfold restoreOutput
  by_cases hheight : u.nHeight=0
  · rw [if_neg (not_not.mpr hheight)]
    apply stored_cleanup
    · intro o ho
      rcases hmem _ _ o ho with ho | rfl | rfl
      · exact hd.outputs o ho
      · exact .inl rfl
      · exact hout
    · exact fun _ => hd.height (hmeta hheight)
    · exact fun _ => hd.version (hmeta hheight)
  · rw [if_pos hheight]
    apply stored_cleanup
    · intro o ho
      rcases hmem _ _ o ho with ho | rfl | rfl
      · cases ho
      · exact .inl rfl
      · exact hout
    · have hlt := hu.storable.height
      intro _
      dsimp only
      omega
    · exact fun _ => hu.storable.version

end Stored

end Zdeex.Block
