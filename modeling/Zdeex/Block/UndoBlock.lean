import Zdeex.Block.Reorg

namespace Zdeex.Coins.CCoins

open Zdeex.Block

/-- How many outputs of a transaction are unspent. -/
def unspentCount (c : CCoins) : Nat := c.vout.countP fun o => !o.isNull

private theorem countP_of_filter {l m : List CTxOut}
    (h : ∀n : Nat,(l[n]?).filter (fun o => !o.isNull)=(m[n]?).filter (fun o => !o.isNull)) :
    l.countP (fun o => !o.isNull)=m.countP (fun o => !o.isNull) := by
  induction l generalizing m with
  | nil =>
    have hall : ∀o∈m,¬(!o.isNull)=true := by
      intro o ho
      obtain ⟨n,hn⟩ := List.getElem?_of_mem ho
      have hnone := (h n).symm
      rw [hn,List.getElem?_nil,Option.filter_none,Option.filter_eq_none_iff] at hnone
      exact hnone o rfl
    exact (List.countP_eq_zero.mpr hall).symm
  | cons a l ih =>
    cases m with
    | nil =>
      have hall : ∀o∈a::l,¬(!o.isNull)=true := by
        intro o ho
        obtain ⟨n,hn⟩ := List.getElem?_of_mem ho
        have hnone := h n
        rw [hn,List.getElem?_nil,Option.filter_none,Option.filter_eq_none_iff] at hnone
        exact hnone o rfl
      exact List.countP_eq_zero.mpr hall
    | cons b m =>
      have htail := ih fun n => h (n+1)
      have hhead : (!a.isNull)=(!b.isNull) := by
        have hzero := h 0
        simp only [List.getElem?_cons_zero,Option.filter] at hzero
        cases ha : a.isNull <;> cases hb : b.isNull <;> simp [ha,hb] at hzero ⊢
      rw [List.countP_cons,List.countP_cons,htail,hhead]

theorem unspentCount_eq {c d : CCoins} (h : c.unspentOutput=d.unspentOutput) :
    c.unspentCount=d.unspentCount := by
  apply countP_of_filter
  intro n
  rw [← unspentOutput_eq_filter,← unspentOutput_eq_filter,h]

@[simp] theorem unspentCount_cleanup (c : CCoins) : c.cleanup.unspentCount=c.unspentCount :=
  unspentCount_eq (unspentOutput_cleanup c)

theorem unspentCount_spend {c : CCoins} {n : Nat} {o : CTxOut} (ho : c.unspentOutput n=some o) :
    (c.spend n).unspentCount+1=c.unspentCount := by
  rw [unspentOutput_eq_filter,Option.filter_eq_some_iff] at ho
  obtain ⟨hget,hnull⟩ := ho
  obtain ⟨hlen,rfl⟩ := List.getElem?_eq_some_iff.mp hget
  have hpos : 0<c.vout.countP (fun o => !o.isNull) :=
    List.countP_pos_iff.mpr ⟨_,List.getElem_mem hlen,hnull⟩
  rw [spend,unspentCount_cleanup]
  unfold unspentCount
  have hspent : ¬(!CTxOut.setNull.isNull)=true := by decide
  rw [List.countP_set hlen,if_pos hnull,if_neg hspent]
  omega

/-- A record that fits adds one output. -/
theorem unspentCount_restoreOutput {d : CCoins} {u : CTxInUndo} {n : Nat}
    (hclean : (restoreOutput u n d).2=true) (hnull : u.txout.isNull=false) :
    (restoreOutput u n d).1.unspentCount=d.unspentCount+1 := by
  have hset := fun c m => unspentOutput_set c n m hnull
  unfold restoreOutput at hclean ⊢
  dsimp only at hclean ⊢
  rw [Bool.and_eq_true,Bool.not_eq_true'] at hclean
  obtain ⟨hpruned,hfree⟩ := hclean
  generalize hc : (if u.nHeight≠0 then (⟨u.fCoinBase,[],u.nHeight,u.nVersion⟩ : CCoins) else d)=c
    at hfree ⊢
  have hbefore : d.unspentOutput=c.unspentOutput := by
    subst hc
    split_ifs at hpruned ⊢ with hheight
    · funext m
      rw [(isPruned_iff d).mp hpruned m]
      rfl
    · rfl
  have hspend : (spend {c with
      vout := (c.vout++List.replicate (n+1-c.vout.length) CTxOut.setNull).set n u.txout}
        n).unspentOutput=d.unspentOutput := by
    funext m
    rw [unspentOutput_spend,hset,hbefore]
    split_ifs with hm
    · subst hm
      rw [unspentOutput,hfree]
      rfl
    · rfl
  have hout := hset c n
  rw [if_pos rfl] at hout
  rw [← unspentCount_spend hout,unspentCount_eq hspend]

end Zdeex.Coins.CCoins

namespace Zdeex.Block

open Zdeex.Coins

variable {Tree : Type} (R : BlockRules Tree)

def View.countAt (v : View Tree) (t : Uint256) : Nat := (v.entry t).unspentCount

theorem View.countAt_modifyCoins (v : View Tree) (txid t : Uint256) (edit : CCoins → CCoins) :
    (v.modifyCoins txid edit).countAt t=
      if t=txid then (edit (v.entry txid)).unspentCount else v.countAt t := by
  rw [countAt,entry_modifyCoins]
  split_ifs
  · exact CCoins.unspentCount_cleanup _
  · rfl

section Count

variable {nHeight : Int} {i : Nat} {t : Uint256}

theorem countAt_spendInputs {l : List CTxIn} {v v' : View Tree} {undos : List CTxInUndo}
    (h : spendInputs l v=some (v',undos)) :
    v'.countAt t+l.countP (fun txin => txin.prevout.hash==t)=v.countAt t := by
  induction l generalizing v undos with
  | nil =>
    obtain ⟨rfl,-⟩ := Prod.mk.inj (Option.some.inj h)
    rfl
  | cons txin l ih =>
    obtain ⟨o,rest,ho,hrest,-⟩ := spendInputs_cons h
    have hih := ih hrest
    have hspend := CCoins.unspentCount_spend ho
    rw [View.countAt_modifyCoins] at hih
    rw [List.countP_cons]
    by_cases heq : txin.prevout.hash=t
    · subst heq
      rw [if_pos rfl] at hih
      rw [beq_self_eq_true,if_pos rfl]
      unfold View.countAt at hih ⊢
      omega
    · rw [if_neg (Ne.symm heq)] at hih
      rw [if_neg (by simpa using heq)]
      omega

theorem countAt_restoreInputs {txhash : Uint256} {j : Nat} {l : List (CTxIn × CTxInUndo)}
    {s s' : DisconnectState Tree} (h : restoreInputs R nHeight i txhash j l s=some s')
    (hclean : s'.fClean=true) (hl : ∀x∈l,x.2.txout.isNull=false) :
    s.fClean=true ∧
      s'.view.countAt t=s.view.countAt t+l.countP (fun x => x.1.prevout.hash==t) := by
  induction l generalizing j s' with
  | nil =>
    obtain rfl := Option.some.inj h
    exact ⟨hclean,rfl⟩
  | cons x l ih =>
    rw [restoreInputs,Option.bind_eq_some_iff] at h
    obtain ⟨s₁,h₁,h⟩ := h
    unfold restoreInput at h
    dsimp only at h
    split_ifs at h
    obtain rfl := Option.some.inj h
    rw [Bool.and_eq_true] at hclean
    obtain ⟨hclean₁,hfit⟩ := hclean
    obtain ⟨hs,hcount⟩ := ih h₁ hclean₁ fun y hy => hl y (by simp [hy])
    refine ⟨hs,?_⟩
    have hone := CCoins.unspentCount_restoreOutput hfit (hl x (by simp))
    rw [List.countP_cons]
    dsimp only [applyTxInUndo]
    rw [View.countAt_modifyCoins]
    by_cases heq : x.1.prevout.hash=t
    · subst heq
      rw [if_pos rfl,beq_self_eq_true,if_pos rfl,hone]
      unfold View.countAt at hcount ⊢
      omega
    · rw [if_neg (Ne.symm heq),if_neg (by simpa using heq)]
      omega

/-- Whether a transaction marks `t` as imported. -/
def importsBurn (t : Uint256) (tx : CTransaction) : Bool :=
  (tx.isCoinImport || tx.isPegsImport R.pegscc) && burnHash tx==t

theorem countAt_updateCoins {tx : CTransaction} {v v' : View Tree} {undo : CTxUndo}
    (h : updateCoins R.pegscc tx nHeight v=some (v',undo)) (ht : t≠tx.hash) :
    v'.countAt t+(spentInputs R.pegscc tx).countP (fun txin => txin.prevout.hash==t)=
      v.countAt t+if importsBurn R t tx then 1 else 0 := by
  obtain ⟨v₁,undos,hspend,rfl,-⟩ := updateCoins_eq h
  have hcount := countAt_spendInputs (t := t) hspend
  have hadded : ((v₁.setNullifiers tx true).modifyCoins tx.hash
      fun _ => CCoins.fromTx tx nHeight).countAt t=v₁.countAt t := by
    rw [View.countAt_modifyCoins,if_neg ht]
    rfl
  unfold addOutputs importsBurn
  dsimp only
  cases himport : tx.isCoinImport || tx.isPegsImport R.pegscc with
  | false =>
    rw [if_neg (by decide),hadded,Bool.false_and,if_neg (by decide)]
    omega
  | true =>
    rw [if_pos rfl,Bool.true_and,addImportTombstone,View.countAt_modifyCoins]
    by_cases hburn : t=burnHash tx
    · subst hburn
      rw [if_pos rfl,if_pos (beq_self_eq_true _)]
      have htomb : ∀c : CCoins,CCoins.unspentCount {c with
          nHeight := nHeight,nVersion := 4,vout := c.vout++[tombstone]}=c.unspentCount+1 := by
        intro c
        simp [CCoins.unspentCount,tombstone,CTxOut.isNull]
      rw [htomb]
      unfold View.countAt at hadded hcount ⊢
      omega
    · rw [if_neg hburn,if_neg (by simpa using Ne.symm hburn),hadded]
      omega

theorem undoneInputs_spent {tx : CTransaction} {undos : List CTxInUndo} {j : Nat}
    {inputs : List (CTxIn × CTxInUndo)} (hmint : tx.isMint=false)
    (hlen : undos.length=(spentInputs R.pegscc tx).length)
    (h : undoneInputs R tx ⟨undos⟩=some (j,inputs)) :
    inputs=(spentInputs R.pegscc tx).zip undos := by
  unfold undoneInputs at h
  unfold spentInputs at hlen ⊢
  rw [hmint,if_neg (by decide)] at hlen ⊢
  cases hpegs : tx.isPegsImport R.pegscc with
  | false =>
    rw [hpegs,if_neg (by decide)] at h
    split_ifs at h
    obtain ⟨-,rfl⟩ := Prod.mk.inj (Option.some.inj h)
    simp
  | true =>
    rw [hpegs] at hlen
    rw [hpegs,if_pos rfl] at h
    split_ifs at h with hvin
    obtain ⟨-,rfl⟩ := Prod.mk.inj (Option.some.inj h)
    cases hcons : tx.vin with
    | nil =>
      rw [hcons] at hvin
      cases hvin
    | cons txin rest =>
      have hfirst : (txin.prevout.n==CTransaction.importMarker)=true := by
        unfold CTransaction.isPegsImport at hpegs
        rw [hcons] at hpegs
        exact (Bool.and_eq_true _ _ ▸ hpegs).2
      rw [hcons,List.filter_cons,hfirst] at hlen
      rw [hcons] at hvin
      simp only [Bool.true_and,Bool.not_true,Bool.false_eq_true,if_false,List.length_cons] at hlen hvin
      have hall : rest.filter (fun txin => !txin.prevout.n==CTransaction.importMarker)=rest := by
        apply List.filter_eq_self.mpr
        apply List.length_filter_eq_length_iff.mp
        omega
      rw [List.filter_cons,hfirst]
      simp only [Bool.true_and,Bool.not_true,Bool.false_eq_true,if_false,List.drop_one,List.tail_cons]
      rw [hall]

theorem countAt_disconnectTx {tx : CTransaction} {undos : List CTxInUndo}
    {d d' : DisconnectState Tree} (h : disconnectTx R nHeight i tx ⟨undos⟩ d=some d')
    (hclean : d'.fClean=true) (ht : t≠tx.hash) (himport : tx.isCoinImport=false)
    (hlen : undos.length=(spentInputs R.pegscc tx).length)
    (hundos : ∀u∈undos,u.txout.isNull=false) :
    d.fClean=true ∧ d'.view.countAt t=
      d.view.countAt t+(spentInputs R.pegscc tx).countP (fun txin => txin.prevout.hash==t) := by
  have hremoved : ((removeOutputs nHeight tx d.view).1.setNullifiers tx false).countAt t=
      d.view.countAt t := by
    have hcount := d.view.countAt_modifyCoins tx.hash t fun _ => CCoins.clear
    rw [if_neg ht] at hcount
    exact hcount
  unfold disconnectTx undoInputs at h
  dsimp only at h
  cases hmint : tx.isMint with
  | false =>
    rw [hmint,if_pos rfl] at h
    split at h
    · cases h
    · rename_i j inputs hinputs
      obtain rfl := undoneInputs_spent R hmint hlen hinputs
      obtain ⟨hclean₁,hcount⟩ := countAt_restoreInputs (t := t) R h hclean
        fun x hx => hundos x.2 (List.of_mem_zip hx).2
      rw [Bool.and_eq_true] at hclean₁
      refine ⟨hclean₁.1,hcount.trans ?_⟩
      have hzip : ((spentInputs R.pegscc tx).zip undos).countP (fun x => x.1.prevout.hash==t)=
          (spentInputs R.pegscc tx).countP (fun txin => txin.prevout.hash==t) := by
        have hfst : ((spentInputs R.pegscc tx).zip undos).map Prod.fst=spentInputs R.pegscc tx :=
          List.map_fst_zip hlen.ge
        conv_rhs => rw [← hfst,List.countP_map]
        rfl
      rw [hzip]
      exact congrArg (·+_) hremoved
  | true =>
    have hpegs : tx.isPegsImport R.pegscc=false := tx.not_isPegsImport_of_isMint himport hmint
    rw [hmint,himport,hpegs,if_neg (by decide),if_neg (by decide)] at h
    obtain rfl := Option.some.inj h
    rw [Bool.and_eq_true] at hclean
    refine ⟨hclean.1,?_⟩
    rw [spentInputs,if_pos hmint]
    exact hremoved

/-- Records are put back for all the inputs that were spent, and the tombstones stay. -/
theorem countAt_disconnectTxs {txs : List CTransaction} {undos : List CTxUndo}
    {s s' : ConnectState Tree} (h : TxsConnected R nHeight i txs undos s s')
    (hundos : ∀x∈undos,∀u∈x.vprevout,u.txout.isNull=false) (ht : ∀tx∈txs,t≠tx.hash)
    (himport : ∀tx∈txs,tx.isCoinImport=false) {d d' : DisconnectState Tree}
    (hd : disconnectTxs R nHeight i (txs.zip undos) d=some d') (hclean : d'.fClean=true) :
    d'.view.countAt t+s'.view.countAt t=
      d.view.countAt t+s.view.countAt t+txs.countP (importsBurn R t) := by
  have hrun : d.fClean=true ∧ d'.view.countAt t+s'.view.countAt t=
      d.view.countAt t+s.view.countAt t+txs.countP (importsBurn R t) := by
    induction h generalizing d' with
    | nil i s =>
      obtain rfl := Option.some.inj hd
      exact ⟨hclean,rfl⟩
    | @cons i tx txs undo undos s s₁ s' valueout htx hrest ih =>
      rw [List.zip_cons_cons,disconnectTxs,Option.bind_eq_some_iff] at hd
      obtain ⟨d₁,hd₁,hd⟩ := hd
      have hcoins := countAt_updateCoins R (t := t) htx.coins (ht tx (by simp))
      obtain ⟨v₁,records,hspend,-,rfl⟩ := updateCoins_eq htx.coins
      obtain ⟨hclean₁,hstep⟩ := countAt_disconnectTx R hd hclean (ht tx (by simp))
        (himport tx (by simp)) (spendInputs_length hspend) (hundos _ (by simp))
      obtain ⟨hclean₀,hih⟩ := ih (fun x hx => hundos x (by simp [hx]))
        (fun tx' hin => ht tx' (by simp [hin])) (fun tx' hin => himport tx' (by simp [hin])) hd₁
        hclean₁
      refine ⟨hclean₀,?_⟩
      rw [List.countP_cons]
      omega
  exact hrun.2

end Count

section Undone

variable {p : CBlockIndex} {block : CBlock} {v : View Tree} {a : Connected Tree}
  (K : PubKeys) (checksum : Uint256 → List Framework.Byte → Uint256)

/-- Disconnecting a connected block with the undo data of its file is clean and gives
the view before it, missing and pruned entries identified. -/
def Undone (p : CBlockIndex) (block : CBlock) (v : View Tree) (a : Connected Tree) : Prop :=
  ∃undo d,a.undo=some undo ∧
    disconnectFromDisk R K checksum p block (undoWriteToDisk K checksum p.hashBlock undo) a.view=
      some d ∧
    d.fClean=true ∧ d.view.Alike ∅ v ∧ d.view.SameTip v

theorem disconnectFromDisk_eq (h : connectBlock R (some p) block v=.ok a) {undo : CBlockUndo}
    (hundo : a.undo=some undo) (hv : v.Stored) (hheight : 0≤p.nHeight ∧ p.nHeight+1<2^31)
    (hversion : ∀tx∈block.vtx,tx.nVersion<2^31) (w : View Tree) :
    disconnectFromDisk R K checksum p block (undoWriteToDisk K checksum p.hashBlock undo) w=
      disconnectBlock R p block undo w := by
  obtain ⟨-,hstorable,-⟩ := connectBlock_stored R h hundo hv hheight hversion
  rw [disconnectFromDisk,undoReadFromDisk_undoWriteToDisk K checksum p.hashBlock hstorable]

theorem apart_empty {tx : CTransaction} (himport : tx.isCoinImport=false)
    (hpegs : tx.isPegsImport R.pegscc=false) : Apart R ∅ tx where
  hash := by simp
  burn := by simp [himport,hpegs]
  inputs := by simp
  marker := by simp [spentInputs,View.lookedUp,hpegs]

theorem undone_of_no_pegsImport (h : connectBlock R (some p) block v=.ok a)
    (hgenesis : block.hash≠R.hashGenesisBlock) (hv : AtBlock R p v)
    (hheight : 0≤p.nHeight ∧ p.nHeight+1<2^31) (hversion : ∀tx∈block.vtx,tx.nVersion<2^31)
    (hroot : FreshRoot R block v) (hnodup : (block.vtx.map CTransaction.hash).Nodup)
    (himport : ∀tx∈block.vtx,tx.isCoinImport=false)
    (hpegs : ∀tx∈block.vtx,tx.isPegsImport R.pegscc=false) : Undone R K checksum p block v a := by
  obtain ⟨undo,hundo⟩ := connectBlock_undo R h hgenesis
  obtain ⟨hstored,-,-⟩ := connectBlock_stored R h hundo hv.stored hheight hversion
  obtain ⟨d,hd,hclean,halike,htip,-⟩ := disconnectBlock_connectBlock R h hundo hv hheight
    (fun tx htx => ⟨hversion tx htx,apart_empty R (himport tx htx) (hpegs tx htx)⟩) hnodup hroot
    (.refl a.view) (.refl a.view) hstored
  refine ⟨undo,d,hundo,?_,hclean,halike,htip⟩
  rw [disconnectFromDisk_eq R K checksum h hundo hv.stored hheight hversion,hd]

/-- The tombstone of a Pegs import with several inputs is still there. -/
theorem not_undone_of_pegsImport (h : connectBlock R (some p) block v=.ok a)
    (hv : v.Stored) (hheight : 0≤p.nHeight ∧ p.nHeight+1<2^31)
    (hversion : ∀tx∈block.vtx,tx.nVersion<2^31)
    (himport : ∀tx∈block.vtx,tx.isCoinImport=false) {tx : CTransaction} (htx : tx∈block.vtx)
    (hpegs : tx.isPegsImport R.pegscc=true) (hburn : ∀tx'∈block.vtx,burnHash tx≠tx'.hash) :
    ¬Undone R K checksum p block v a := by
  rintro ⟨undo,d,hundo,hd,hclean,halike,-⟩
  rw [disconnectFromDisk_eq R K checksum h hundo hv hheight hversion] at hd
  obtain ⟨-,-,hsound⟩ := connectBlock_stored R h hundo hv hheight hversion
  obtain ⟨-,-,tree,s,coinbase,txs,undos,-,-,-,-,htrace,rfl,rfl⟩ := connectBlock_trace R h hundo
  obtain ⟨-,-,d₁,hd₁,hsame,-,hentry,-,-⟩ := disconnectBlock_some R hd
  have hnull : ∀x∈(⟨[]⟩::undos : List CTxUndo),∀u∈x.vprevout,u.txout.isNull=false := by
    intro x hx u hu
    rcases List.mem_cons.mp hx with rfl | hx
    · cases hu
    · have hvalue := ((hsound x hx).2 u hu).storable.txout.value.1
      simp only [CTxOut.isNull,beq_eq_false_iff_ne]
      omega
  have hcount := countAt_disconnectTxs R htrace hnull hburn himport hd₁ (hsame ▸ hclean)
  have hone : 0<block.vtx.countP (importsBurn R (burnHash tx)) := by
    apply List.countP_pos_iff.mpr
    exact ⟨tx,htx,by simp [importsBurn,hpegs]⟩
  have hview : (finishBlock R block v s).view.countAt (burnHash tx)=s.view.countAt (burnHash tx) :=
    congrArg CCoins.unspentCount (entry_finishBlock block v s _)
  have hback : d₁.view.countAt (burnHash tx)=v.countAt (burnHash tx) := by
    unfold View.countAt
    rw [← hentry]
    exact CCoins.unspentCount_eq (CCoins.unspentOutput_eq_of_seen (halike.coins _ (by simp)))
  dsimp only at hcount
  omega

/-- Disconnecting a block undoes connecting it exactly when it has no Pegs import. -/
theorem undone_iff_no_pegsImport (h : connectBlock R (some p) block v=.ok a)
    (hgenesis : block.hash≠R.hashGenesisBlock) (hv : AtBlock R p v)
    (hheight : 0≤p.nHeight ∧ p.nHeight+1<2^31) (hversion : ∀tx∈block.vtx,tx.nVersion<2^31)
    (hroot : FreshRoot R block v) (hnodup : (block.vtx.map CTransaction.hash).Nodup)
    (himport : ∀tx∈block.vtx,tx.isCoinImport=false)
    (hburn : ∀tx∈block.vtx,tx.isPegsImport R.pegscc=true → ∀tx'∈block.vtx,burnHash tx≠tx'.hash) :
    Undone R K checksum p block v a ↔ ∀tx∈block.vtx,tx.isPegsImport R.pegscc=false := by
  constructor
  · intro hundone tx htx
    by_contra hpegs
    rw [Bool.not_eq_false] at hpegs
    exact not_undone_of_pegsImport R K checksum h hv.stored hheight hversion himport htx hpegs
      (hburn tx htx hpegs) hundone
  · exact undone_of_no_pegsImport R K checksum h hgenesis hv hheight hversion hroot hnodup himport

end Undone

section Small

/-- A chain without upgrades and with one address type, for small runs. -/
def smallRules (pegscc : Bool) : BlockRules Unit where
  MAX_MONEY := 21000000*COIN
  pegscc := pegscc
  ASSETCHAINS_PRIVATE := false
  ASSETCHAINS_TXPOW := 0
  scpublic _ := false
  isNotaryVout _ _ := false
  overwinterActive _ := false
  saplingActive _ := false
  beforeLastCheckpoint _ := false
  checkCoinbaseOpret _ _ := true
  signatureHashThrows _ _ := false
  saplingProofError _ _ := none
  getAddressType script := if script.length=1 then (1,[script]) else (0,[])
  fAddressIndex := true
  fSpentIndex := true
  trees := ⟨fun _ => 1,fun tree _ => some tree,1⟩
  hashGenesisBlock := 1000
  HUSH_STOPAT := 0
  headerError _ _ := none
  saplingHeight := 0
  headerSize _ := 1000
  MAX_BLOCK_SIGOPS := 20000
  legacySigOps _ := 0
  p2shSigOps _ _ := 0
  isFinalTx _ _ _ := true
  startsWithHeight _ _ := true
  ASSETCHAINS_TIMELOCKGTE := 2^64-1
  blockUnlockTime _ := 0
  COINBASE_MATURITY := 0
  verifyScripts _ _ _ := true
  verifyCoinImport _ := true
  getCoinImportValue _ := 0
  getBlockSubsidy _ := 50
  ASSETCHAINS_NOTARY_PAY := false
  notarizationTx _ _ := 0
  checkNotaryPay _ _ := 0
  commission := false
  theCommission _ _ := 0
  isSmartChain := true
  HUSH_NOTARIES_HEIGHT1 := 0
  HUSH_EXTRASATOSHI := 0

/-- A transparent transaction. -/
def plainTx (hash : Uint256) (vin : List COutPoint) (vout : List CTxOut) : CTransaction where
  hash := hash
  fOverwintered := false
  nVersion := 1
  nVersionGroupId := 0
  vin := vin.map fun prevout => ⟨prevout,[1,1]⟩
  vout := vout
  nExpiryHeight := 0
  valueBalance := 0
  vShieldedSpend := []
  vShieldedOutput := []
  vjoinsplit := []

def plainCoinbase (hash : Uint256) : CTransaction := plainTx hash [⟨0,0xFFFFFFFF⟩] [⟨50,[0x51]⟩]

/-- The block that `smallView` is at. -/
def smallIndex : CBlockIndex := ⟨9,1,0,0⟩

/-- One transaction with one unspent output. -/
def smallView : View Unit where
  coins txid := if txid=7 then some ⟨false,[⟨50,[0x51]⟩],1,1⟩ else none
  nullifiers _ := false
  anchors rt := if rt=1 then some () else none
  bestSaplingAnchor := 1
  bestSproutAnchor := 0
  bestBlock := 9

/-- A Pegs import of burn 8 that also spends an output. -/
def pegsBlock : CBlock :=
  ⟨10,0,0,[plainCoinbase 101,plainTx 102 [⟨8,1000000000⟩,⟨7,0⟩] [⟨50,[0x51]⟩]]⟩

/-- The same without an import. -/
def spendBlock : CBlock := ⟨10,0,0,[plainCoinbase 101,plainTx 102 [⟨7,0⟩] [⟨50,[0x51]⟩]]⟩

def noKeys : PubKeys := ⟨fun _ => false,fun _ => none,by simp⟩

theorem exists_of_toBool {ε α : Type} {x : Except ε α} (h : x.toBool=true) : ∃a,x=.ok a := by
  cases x with
  | error e => cases h
  | ok a => exact ⟨a,rfl⟩

theorem stored_smallView : smallView.Stored := by
  intro txid
  unfold View.entry smallView
  dsimp only
  split_ifs
  · refine ⟨by decide,?_,by decide,by decide⟩
    intro o ho
    rw [List.mem_singleton.mp ho]
    exact .inr ⟨⟨by decide,by decide⟩,by decide⟩
  · exact stored_clear

theorem atBlock_smallView (pegscc : Bool) : AtBlock (smallRules pegscc) smallIndex smallView :=
  ⟨stored_smallView,rfl⟩

theorem spendBlock_undone : ∃a,connectBlock (smallRules false) (some smallIndex) spendBlock smallView=
    .ok a ∧ Undone (smallRules false) noKeys (fun _ _ => 0) smallIndex spendBlock smallView a := by
  obtain ⟨a,ha⟩ := exists_of_toBool
    (x := connectBlock (smallRules false) (some smallIndex) spendBlock smallView) rfl
  have hpegs : ∀tx∈spendBlock.vtx,tx.isPegsImport (smallRules false).pegscc=false := by decide
  refine ⟨a,ha,?_⟩
  apply (undone_iff_no_pegsImport (smallRules false) noKeys (fun _ _ => 0) ha (by decide)
    (atBlock_smallView false) (by decide) (by decide) (fun _ _ _ _ => .inl rfl) (by decide)
    (by decide) ?_).mpr hpegs
  intro tx htx h
  rw [hpegs tx htx] at h
  cases h

/-- A block without coin imports is accepted, but a Pegs import in it cannot be undone. -/
theorem pegsBlock_not_undone : ∃a,
    connectBlock (smallRules true) (some smallIndex) pegsBlock smallView=.ok a ∧
    smallIndex.hashBlock=smallView.bestBlock ∧ (∀tx∈pegsBlock.vtx,tx.isCoinImport=false) ∧
    (pegsBlock.vtx.map CTransaction.hash).Nodup ∧
    ∀K checksum,¬Undone (smallRules true) K checksum smallIndex pegsBlock smallView a := by
  obtain ⟨a,ha⟩ := exists_of_toBool
    (x := connectBlock (smallRules true) (some smallIndex) pegsBlock smallView) rfl
  have himport : ∀tx∈pegsBlock.vtx,tx.isCoinImport=false := by decide
  refine ⟨a,ha,rfl,himport,by decide,?_⟩
  intro K checksum
  have hmem : plainTx 102 [⟨8,1000000000⟩,⟨7,0⟩] [⟨50,[0x51]⟩]∈pegsBlock.vtx :=
    List.mem_cons_of_mem _ (List.mem_singleton.mpr rfl)
  apply not_undone_of_pegsImport (smallRules true) K checksum ha stored_smallView (by decide)
    (by decide) himport hmem
  · rfl
  · decide

end Small

end Zdeex.Block
