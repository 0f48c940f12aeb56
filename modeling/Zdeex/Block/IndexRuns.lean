import Zdeex.Block.ChainRun
import Zdeex.Block.Tombstones
import Zdeex.Block.Twins

namespace Zdeex.Block

open Zdeex.Framework
open Zdeex.Coins

section Batch

variable {K V W : Type} [DecidableEq K] {stored : V → Option W}

theorem writeBatch_of_notMem {vect : List (K × V)} (db : K → Option W) {k : K}
    (h : k∉vect.map Prod.fst) : writeBatch stored vect db k=db k := by
  unfold writeBatch
  induction vect generalizing db with
  | nil => rfl
  | cons kv vect ih =>
    rw [List.map_cons,List.mem_cons,not_or] at h
    rw [List.foldl_cons,ih _ h.2,Function.update_of_ne h.1]

/-- A batch that only erases. -/
theorem writeBatch_erases {vect : List (K × V)} (h : ∀kv∈vect,stored kv.2=none)
    (db : K → Option W) (k : K) :
    writeBatch stored vect db k=if k∈vect.map Prod.fst then none else db k := by
  unfold writeBatch
  induction vect generalizing db with
  | nil => rfl
  | cons kv vect ih =>
    rw [List.foldl_cons,ih (fun x hx => h x (by simp [hx]))]
    by_cases hin : k∈vect.map Prod.fst
    · simp only [List.map_cons,List.mem_cons,hin,or_true,if_true]
    · by_cases heq : k=kv.1
      · subst heq
        simp only [List.map_cons,List.mem_cons,true_or,if_true,if_neg hin,Function.update_self]
        exact h kv (by simp)
      · simp [hin,heq]

/-- What was written by one batch is erased by another one with at least its keys, on keys
that were free. -/
theorem writeBatch_undo {U : Type} {stored' : U → Option W} {vect : List (K × V)}
    {back : List (K × U)} {db : K → Option W} (herase : ∀kv∈back,stored' kv.2=none)
    (hsub : ∀k∈vect.map Prod.fst,k∈back.map Prod.fst)
    (hfree : ∀k∈back.map Prod.fst,db k=none) :
    writeBatch stored' back (writeBatch stored vect db)=db := by
  funext k
  rw [writeBatch_erases herase]
  split_ifs with hin
  · exact (hfree k hin).symm
  · exact writeBatch_of_notMem db fun hk => hin (hsub k hk)

theorem writeBatch_some {vect : List (K × V)} {db : K → Option W} {k : K}
    (h : writeBatch stored vect db k≠none) :
    db k≠none ∨ ∃kv∈vect,kv.1=k ∧ stored kv.2≠none := by
  unfold writeBatch at h
  induction vect generalizing db with
  | nil => exact .inl h
  | cons kv vect ih =>
    rw [List.foldl_cons] at h
    rcases ih h with hdb | ⟨kv',hmem,hkv⟩
    · by_cases heq : k=kv.1
      · subst heq
        rw [Function.update_self] at hdb
        exact .inr ⟨kv,by simp,rfl,hdb⟩
      · rw [Function.update_of_ne heq] at hdb
        exact .inl hdb
    · exact .inr ⟨kv',by simp [hmem],hkv⟩

end Batch

variable {Tree : Type} (R : BlockRules Tree) {B : Set Uint256}

section Delta

theorem IndexDelta.mem_concat_addressIndex {l : List IndexDelta} {e : CAddressIndexKey × Int} :
    e∈(IndexDelta.concat l).addressIndex ↔ ∃δ∈l,e∈δ.addressIndex := by
  induction l with
  | nil => simp [concat,empty]
  | cons δ l ih =>
    rw [show concat (δ::l)=δ.append (concat l) from rfl]
    simp [append,ih]

theorem IndexDelta.mem_concat_unspent {l : List IndexDelta}
    {e : CAddressUnspentKey × CAddressUnspentValue} :
    e∈(IndexDelta.concat l).addressUnspentIndex ↔ ∃δ∈l,e∈δ.addressUnspentIndex := by
  induction l with
  | nil => simp [concat,empty]
  | cons δ l ih =>
    rw [show concat (δ::l)=δ.append (concat l) from rfl]
    simp [append,ih]

theorem IndexDelta.mem_concat_spent {l : List IndexDelta} {e : CSpentIndexKey × CSpentIndexValue} :
    e∈(IndexDelta.concat l).spentIndex ↔ ∃δ∈l,e∈δ.spentIndex := by
  induction l with
  | nil => simp [concat,empty]
  | cons δ l ih =>
    rw [show concat (δ::l)=δ.append (concat l) from rfl]
    simp [append,ih]

theorem forAddresses_eq_nil {I : IndexRules} {K V : Type} {out : CTxOut}
    (h : (I.getAddressType out.scriptPubKey).1=0) (entry : Nat → List UInt8 → K × V) :
    forAddresses I out entry=[] := by
  simp [forAddresses,h]

theorem exists_of_mem_forAddresses {I : IndexRules} {K V : Type} {out : CTxOut}
    {entry : Nat → List UInt8 → K × V} {e : K × V} (h : e∈forAddresses I out entry) :
    ∃keyType addrHash,e=entry keyType addrHash := by
  unfold forAddresses at h
  dsimp only at h
  split_ifs at h
  · obtain ⟨addrHash,-,rfl⟩ := List.mem_map.mp h
    exact ⟨_,addrHash,rfl⟩
  · cases h

theorem spendDelta_eq_empty {I : IndexRules} {out : CTxOut}
    (h : (I.getAddressType out.scriptPubKey).1=0) (nHeight : Int) (i : Nat) (txhash : Uint256)
    (j : Nat) (prevout : COutPoint) :
    spendDelta I nHeight i txhash j prevout out=IndexDelta.empty := by
  unfold spendDelta
  rw [forAddresses_eq_nil h,forAddresses_eq_nil h,if_neg fun hne => hne.2 h]
  rfl

theorem IndexDelta.concat_of_empty {l : List IndexDelta} (h : ∀δ∈l,δ=IndexDelta.empty) :
    IndexDelta.concat l=IndexDelta.empty := by
  induction l with
  | nil => rfl
  | cons δ l ih =>
    rw [show concat (δ::l)=δ.append (concat l) from rfl,h δ (by simp),
      ih fun δ' hδ' => h δ' (by simp [hδ'])]
    rfl

@[simp] theorem IndexDelta.empty_append (δ : IndexDelta) : IndexDelta.empty.append δ=δ := rfl

@[simp] theorem IndexDelta.append_empty (δ : IndexDelta) : δ.append IndexDelta.empty=δ := by
  simp [append,empty]

theorem IndexDelta.append_assoc (a b c : IndexDelta) :
    (a.append b).append c=a.append (b.append c) := by
  simp [append,List.append_assoc]

/-- Index entries for the outputs of the transactions from number `i` on. -/
def receivedDelta (nHeight : Int) : Nat → List CTransaction → IndexDelta
  | _,[] => IndexDelta.empty
  | i,tx::txs => (receiveDeltas R nHeight i tx).append (receivedDelta nHeight (i+1) txs)

variable {nHeight : Int} {i : Nat}

theorem mem_receiveDeltas_address {tx : CTransaction} {e : CAddressIndexKey × Int} :
    e∈(receiveDeltas R nHeight i tx).addressIndex ↔ R.fAddressIndex=true ∧
      ∃out∈tx.vout.zipIdx,e∈(receiveDelta R.toIndexRules nHeight i tx.hash out.2 out.1).addressIndex := by
  unfold receiveDeltas
  split_ifs with hflag
  · simp [IndexDelta.mem_concat_addressIndex,hflag]
  · simp [hflag,IndexDelta.empty]

theorem mem_receiveDeltas_unspent {tx : CTransaction}
    {e : CAddressUnspentKey × CAddressUnspentValue} :
    e∈(receiveDeltas R nHeight i tx).addressUnspentIndex ↔ R.fAddressIndex=true ∧
      ∃out∈tx.vout.zipIdx,
        e∈(receiveDelta R.toIndexRules nHeight i tx.hash out.2 out.1).addressUnspentIndex := by
  unfold receiveDeltas
  split_ifs with hflag
  · simp [IndexDelta.mem_concat_unspent,hflag]
  · simp [hflag,IndexDelta.empty]

theorem mem_unreceiveDeltas_address {tx : CTransaction} {e : CAddressIndexKey × Int} :
    e∈(unreceiveDeltas R nHeight i tx).addressIndex ↔
      e∈(receiveDeltas R nHeight i tx).addressIndex := by
  rw [mem_receiveDeltas_address]
  unfold unreceiveDeltas
  split_ifs with hflag
  · simp only [IndexDelta.mem_concat_addressIndex,List.mem_map,List.mem_reverse,hflag,true_and]
    constructor
    · rintro ⟨δ,⟨out,hout,rfl⟩,he⟩
      exact ⟨out,hout,he⟩
    · rintro ⟨out,hout,he⟩
      exact ⟨_,⟨out,hout,rfl⟩,he⟩
  · simp [hflag,IndexDelta.empty]

theorem receivedDelta_spent (nHeight : Int) (i : Nat) (txs : List CTransaction) :
    (receivedDelta R nHeight i txs).spentIndex=[] := by
  induction txs generalizing i with
  | nil => rfl
  | cons tx txs ih =>
    dsimp only [receivedDelta,IndexDelta.append]
    rw [ih,List.append_nil]
    unfold receiveDeltas
    split_ifs
    · rw [List.eq_nil_iff_forall_not_mem]
      intro e he
      obtain ⟨δ,hδ,he⟩ := IndexDelta.mem_concat_spent.mp he
      obtain ⟨out,-,rfl⟩ := List.mem_map.mp hδ
      cases he
    · rfl

theorem forAddresses_map_fst {I : IndexRules} {K V W : Type} (out : CTxOut)
    (key : Nat → List UInt8 → K) (f : Nat → List UInt8 → V) (g : Nat → List UInt8 → W) :
    (forAddresses I out fun t a => (key t a,f t a)).map Prod.fst=
      (forAddresses I out fun t a => (key t a,g t a)).map Prod.fst := by
  unfold forAddresses
  dsimp only
  split_ifs <;> simp

/-- The keys that disconnecting erases are those that connecting wrote. -/
theorem mem_unreceiveDeltas_unspent {tx : CTransaction} {k : CAddressUnspentKey} :
    k∈(unreceiveDeltas R nHeight i tx).addressUnspentIndex.map Prod.fst ↔
      k∈(receiveDeltas R nHeight i tx).addressUnspentIndex.map Prod.fst := by
  unfold unreceiveDeltas receiveDeltas
  split_ifs with hflag
  · simp only [List.mem_map,IndexDelta.mem_concat_unspent]
    have hkeys : ∀out : CTxOut × Nat,
        (unreceiveDelta R.toIndexRules nHeight i tx.hash out.2 out.1).addressUnspentIndex.map Prod.fst=
        (receiveDelta R.toIndexRules nHeight i tx.hash out.2 out.1).addressUnspentIndex.map Prod.fst :=
      fun out => by
        dsimp only [unreceiveDelta,receiveDelta]
        exact forAddresses_map_fst out.1 _ _ _
    constructor
    · rintro ⟨e,⟨δ,⟨out,hout,rfl⟩,he⟩,rfl⟩
      have hk := List.mem_map_of_mem (f := Prod.fst) he
      rw [hkeys out] at hk
      obtain ⟨e',he',hfst⟩ := List.mem_map.mp hk
      exact ⟨e',⟨_,⟨out,List.mem_reverse.mp hout,rfl⟩,he'⟩,hfst⟩
    · rintro ⟨e,⟨δ,⟨out,hout,rfl⟩,he⟩,rfl⟩
      have hk := List.mem_map_of_mem (f := Prod.fst) he
      rw [← hkeys out] at hk
      obtain ⟨e',he',hfst⟩ := List.mem_map.mp hk
      exact ⟨e',⟨_,⟨out,List.mem_reverse.mpr hout,rfl⟩,he'⟩,hfst⟩
  · rfl

theorem unreceiveDeltas_null {tx : CTransaction} {e : CAddressUnspentKey × CAddressUnspentValue}
    (h : e∈(unreceiveDeltas R nHeight i tx).addressUnspentIndex) : e.2.isNull=true := by
  unfold unreceiveDeltas at h
  split_ifs at h
  · obtain ⟨δ,hδ,he⟩ := IndexDelta.mem_concat_unspent.mp h
    obtain ⟨out,-,rfl⟩ := List.mem_map.mp hδ
    dsimp only [unreceiveDelta] at he
    obtain ⟨keyType,addrHash,rfl⟩ := exists_of_mem_forAddresses he
    rfl
  · cases h

end Delta

section Connect

variable {nHeight : Int} {i : Nat}

/-- The records of the inputs hold the outputs that were looked up. -/
theorem spendInputs_outputs {l : List CTxIn} {v v' : View Tree} {undos : List CTxInUndo}
    (h : spendInputs l v=some (v',undos)) (hnodup : (l.map CTxIn.prevout).Nodup) :
    undos.map CTxInUndo.txout=
      l.map fun txin => (v.getOutputFor txin.prevout).getD CTxOut.setNull := by
  induction l generalizing v undos with
  | nil =>
    obtain ⟨-,rfl⟩ := Prod.mk.inj (Option.some.inj h)
    rfl
  | cons txin l ih =>
    obtain ⟨o,rest,ho,hrest,rfl⟩ := spendInputs_cons h
    rw [List.map_cons,List.nodup_cons] at hnodup
    rw [List.map_cons,List.map_cons,ih hrest hnodup.2]
    congr 1
    · rw [View.getOutputFor,ho,undoRecord]
      split_ifs <;> rfl
    · apply List.map_congr_left
      intro t ht
      unfold View.getOutputFor
      rw [View.entry_modifyCoins]
      split_ifs with heq
      · rw [CCoins.unspentOutput_cleanup,CCoins.unspentOutput_spend,if_neg,heq]
        intro hn
        apply hnodup.1
        have hprev : t.prevout=txin.prevout := by
          cases hp : t.prevout
          cases hq : txin.prevout
          simp_all
        exact hprev ▸ List.mem_map_of_mem ht
      · rfl

theorem nodup_lookedUp {pegscc : Bool} {tx : CTransaction}
    (h : (tx.vin.map CTxIn.prevout).Nodup) :
    ((View.lookedUp pegscc tx).map CTxIn.prevout).Nodup := by
  have hsub : (View.lookedUp pegscc tx).Sublist tx.vin := by
    unfold View.lookedUp
    split_ifs
    · exact List.nil_sublist _
    · exact List.drop_sublist ..
    · exact List.Sublist.refl _
  exact h.sublist (hsub.map _)

/-- Without addresses on what it spends, a transaction only adds entries for its outputs. -/
theorem TxConnected.spendDeltas_empty {tx : CTransaction} {s s' : ConnectState Tree}
    {valueout : Int} {undo : CTxUndo} (h : TxConnected R nHeight i tx s s' valueout undo)
    (htx : Undoable R B tx)
    (hundo : ∀u∈undo.vprevout,(R.getAddressType u.txout.scriptPubKey).1=0) :
    spendDeltas R nHeight i tx s.view=IndexDelta.empty := by
  obtain ⟨v₁,undos,hspend,-,rfl⟩ := updateCoins_eq h.coins
  rw [htx.apart.marker] at hspend
  have houts := spendInputs_outputs hspend (nodup_lookedUp htx.checked.prevouts)
  unfold spendDeltas
  by_cases hflag : R.fAddressIndex ∨ R.fSpentIndex
  · rw [if_pos hflag]
    apply IndexDelta.concat_of_empty
    intro δ hδ
    obtain ⟨input,hin,rfl⟩ := List.mem_map.mp hδ
    apply spendDelta_eq_empty
    have hmem : input.1∈View.lookedUp R.pegscc tx := (List.mem_zipIdx hin).2.2 ▸ List.getElem_mem _
    have hout := List.mem_map_of_mem
      (f := fun txin => (s.view.getOutputFor txin.prevout).getD CTxOut.setNull) hmem
    rw [← houts] at hout
    obtain ⟨u,hu,heq⟩ := List.mem_map.mp hout
    rw [← heq]
    exact hundo u hu
  · rw [if_neg hflag]

theorem TxsConnected.delta_eq {txs : List CTransaction} {undos : List CTxUndo}
    {s s' : ConnectState Tree} (h : TxsConnected R nHeight i txs undos s s')
    (htxs : ∀tx∈txs,Undoable R B tx)
    (hundos : ∀t∈undos,∀u∈t.vprevout,(R.getAddressType u.txout.scriptPubKey).1=0) :
    s'.delta=s.delta.append (receivedDelta R nHeight i txs) := by
  induction h with
  | nil i s => exact (IndexDelta.append_empty _).symm
  | @cons i tx txs undo undos s s₁ s' valueout htx hrest ih =>
    rw [ih (fun t ht => htxs t (by simp [ht])) (fun t ht => hundos t (by simp [ht])),htx.delta,
      htx.spendDeltas_empty R (htxs tx (by simp)) (hundos undo (by simp)),
      IndexDelta.empty_append,IndexDelta.append_assoc]
    rfl

end Connect

section Disconnect

variable {nHeight : Int} {i : Nat}

/-- A record of an output without an address. -/
def NoAddress (u : CTxInUndo) : Prop :=
  u.txout.isNull=false ∧ (R.getAddressType u.txout.scriptPubKey).1=0

theorem getOutputFor_applyTxInUndo {u : CTxInUndo} (hnull : u.txout.isNull=false)
    (prevout : COutPoint) (v : View Tree) :
    (applyTxInUndo u prevout v).1.getOutputFor prevout=some u.txout := by
  dsimp only [applyTxInUndo,View.getOutputFor]
  rw [View.entry_modifyCoins,if_pos rfl,CCoins.unspentOutput_cleanup]
  have hset := CCoins.unspentOutput_set (if u.nHeight≠0 then
    ⟨u.fCoinBase,[],u.nHeight,u.nVersion⟩ else v.entry prevout.hash) prevout.n prevout.n hnull
  rw [if_pos rfl] at hset
  exact hset

theorem restoreInputs_delta {txhash : Uint256} {j : Nat} {l : List (CTxIn × CTxInUndo)}
    {d d' : DisconnectState Tree} (h : restoreInputs R nHeight i txhash j l d=some d')
    (hl : ∀x∈l,NoAddress R x.2) : d'.delta.addressIndex=d.delta.addressIndex ∧
      d'.delta.addressUnspentIndex=d.delta.addressUnspentIndex := by
  induction l generalizing j d' with
  | nil =>
    obtain rfl := Option.some.inj h
    exact ⟨rfl,rfl⟩
  | cons x l ih =>
    rw [restoreInputs,Option.bind_eq_some_iff] at h
    obtain ⟨d₁,h₁,h⟩ := h
    obtain ⟨hnull,htype⟩ := hl x (by simp)
    obtain ⟨haddress,hunspent⟩ := ih h₁ fun y hy => hl y (by simp [hy])
    unfold restoreInput at h
    dsimp only at h
    rw [getOutputFor_applyTxInUndo hnull,if_neg (by simp)] at h
    obtain rfl := Option.some.inj h
    dsimp only [IndexDelta.append,unspendDelta,Option.getD_some]
    rw [forAddresses_eq_nil htype,forAddresses_eq_nil htype,ite_self,ite_self,List.append_nil,
      List.append_nil]
    exact ⟨haddress,hunspent⟩

theorem disconnectTx_delta {tx : CTransaction} {txundo : CTxUndo} {d d' : DisconnectState Tree}
    (h : disconnectTx R nHeight i tx txundo d=some d') (hundo : ∀u∈txundo.vprevout,NoAddress R u) :
    d'.delta.addressIndex=d.delta.addressIndex++(unreceiveDeltas R nHeight i tx).addressIndex ∧
      d'.delta.addressUnspentIndex=
        d.delta.addressUnspentIndex++(unreceiveDeltas R nHeight i tx).addressUnspentIndex := by
  unfold disconnectTx undoInputs at h
  dsimp only at h
  split_ifs at h with hmint
  · split at h
    · cases h
    · rename_i j inputs hinputs
      have hrecords : ∀x∈inputs,NoAddress R x.2 := by
        unfold undoneInputs at hinputs
        split_ifs at hinputs
        all_goals
          obtain ⟨-,rfl⟩ := Prod.mk.inj (Option.some.inj hinputs)
          intro x hx
          exact hundo x.2 (List.of_mem_zip hx).2
      exact restoreInputs_delta R h hrecords
  · obtain rfl := Option.some.inj h
    exact ⟨rfl,rfl⟩
  · obtain rfl := Option.some.inj h
    exact ⟨rfl,rfl⟩

/-- The entries that the loop collects for a block which spends nothing with an address. -/
theorem disconnectTxs_delta {txs : List CTransaction} {undos : List CTxUndo}
    (hlen : undos.length=txs.length) {d d' : DisconnectState Tree}
    (h : disconnectTxs R nHeight i (txs.zip undos) d=some d')
    (hundos : ∀t∈undos,∀u∈t.vprevout,NoAddress R u) :
    (∀e,e∈d'.delta.addressIndex ↔
      e∈d.delta.addressIndex ∨ e∈(receivedDelta R nHeight i txs).addressIndex) ∧
    (∀k,k∈d'.delta.addressUnspentIndex.map Prod.fst ↔
      k∈d.delta.addressUnspentIndex.map Prod.fst ∨
        k∈(receivedDelta R nHeight i txs).addressUnspentIndex.map Prod.fst) ∧
    ∀e∈d'.delta.addressUnspentIndex,e∈d.delta.addressUnspentIndex ∨ e.2.isNull=true := by
  induction txs generalizing i undos d' with
  | nil =>
    obtain rfl := Option.some.inj h
    simp [receivedDelta,IndexDelta.empty]
    exact fun a b h => .inl h
  | cons tx txs ih =>
    cases undos with
    | nil => cases hlen
    | cons undo undos =>
      rw [List.zip_cons_cons,disconnectTxs,Option.bind_eq_some_iff] at h
      obtain ⟨d₁,h₁,h⟩ := h
      obtain ⟨haddress,hunspent,hnull⟩ := ih (by simpa using hlen) h₁
        fun t ht => hundos t (by simp [ht])
      obtain ⟨ha,hu⟩ := disconnectTx_delta R h (hundos undo (by simp))
      refine ⟨?_,?_,?_⟩
      · intro e
        rw [ha,List.mem_append,haddress,mem_unreceiveDeltas_address]
        simp only [receivedDelta,IndexDelta.append,List.mem_append]
        tauto
      · intro k
        rw [hu,List.map_append,List.mem_append,hunspent,mem_unreceiveDeltas_unspent]
        simp only [receivedDelta,IndexDelta.append,List.map_append,List.mem_append]
        tauto
      · intro e he
        rw [hu,List.mem_append] at he
        rcases he with he | he
        · exact hnull e he
        · exact .inr (unreceiveDeltas_null R he)

end Disconnect

section Keys

variable {nHeight : Int} {i : Nat}

/-- Every entry of the address indexes belongs to a transaction of a list. -/
structure KeysIn (txids : Set Uint256) (index : IndexDb) : Prop where
  address : ∀k,index.address k≠none → k.txhash∈txids
  unspent : ∀k,index.addressUnspent k≠none → k.txhash∈txids

/-- What a call writes to the address indexes belongs to a transaction of a list. -/
structure DeltaIn (txids : Set Uint256) (delta : IndexDelta) : Prop where
  address : ∀e∈delta.addressIndex,e.1.txhash∈txids
  unspent : ∀e∈delta.addressUnspentIndex,e.2.isNull=true ∨ e.1.txhash∈txids

theorem DeltaIn.append {txids : Set Uint256} {a b : IndexDelta} (ha : DeltaIn txids a)
    (hb : DeltaIn txids b) : DeltaIn txids (a.append b) := by
  constructor
  · intro e he
    rcases List.mem_append.mp he with he | he
    · exact ha.address e he
    · exact hb.address e he
  · intro e he
    rcases List.mem_append.mp he with he | he
    · exact ha.unspent e he
    · exact hb.unspent e he

theorem DeltaIn.empty (txids : Set Uint256) : DeltaIn txids IndexDelta.empty :=
  ⟨fun _ h => absurd h (List.not_mem_nil),fun _ h => absurd h (List.not_mem_nil)⟩

theorem deltaIn_concat {txids : Set Uint256} {l : List IndexDelta} (h : ∀δ∈l,DeltaIn txids δ) :
    DeltaIn txids (IndexDelta.concat l) := by
  induction l with
  | nil => exact DeltaIn.empty txids
  | cons δ l ih =>
    exact (h δ (by simp)).append (ih fun δ' hδ' => h δ' (by simp [hδ']))

theorem deltaIn_receiveDeltas {txids : Set Uint256} {tx : CTransaction} (h : tx.hash∈txids) :
    DeltaIn txids (receiveDeltas R nHeight i tx) := by
  unfold receiveDeltas
  split_ifs
  · apply deltaIn_concat
    intro δ hδ
    obtain ⟨out,-,rfl⟩ := List.mem_map.mp hδ
    constructor
    · intro e he
      dsimp only [receiveDelta] at he
      obtain ⟨keyType,addrHash,rfl⟩ := exists_of_mem_forAddresses he
      exact h
    · intro e he
      dsimp only [receiveDelta] at he
      obtain ⟨keyType,addrHash,rfl⟩ := exists_of_mem_forAddresses he
      exact .inr h
  · exact DeltaIn.empty txids

theorem deltaIn_spendDeltas {txids : Set Uint256} {tx : CTransaction} (h : tx.hash∈txids)
    (v : View Tree) : DeltaIn txids (spendDeltas R nHeight i tx v) := by
  unfold spendDeltas
  by_cases hflag : R.fAddressIndex ∨ R.fSpentIndex
  · rw [if_pos hflag]
    apply deltaIn_concat
    intro δ hδ
    obtain ⟨input,-,rfl⟩ := List.mem_map.mp hδ
    constructor
    · intro e he
      dsimp only [spendDelta] at he
      obtain ⟨keyType,addrHash,rfl⟩ := exists_of_mem_forAddresses he
      exact h
    · intro e he
      dsimp only [spendDelta] at he
      obtain ⟨keyType,addrHash,rfl⟩ := exists_of_mem_forAddresses he
      exact .inl rfl
  · rw [if_neg hflag]
    exact DeltaIn.empty txids

theorem receivedDelta_unspent {txids : Set Uint256} {txs : List CTransaction}
    (htxs : ∀tx∈txs,tx.hash∈txids) :
    ∀e∈(receivedDelta R nHeight i txs).addressUnspentIndex,e.1.txhash∈txids := by
  induction txs generalizing i with
  | nil =>
    intro e he
    cases he
  | cons tx txs ih =>
    intro e he
    rcases List.mem_append.mp he with he | he
    · obtain ⟨-,out,-,he⟩ := (mem_receiveDeltas_unspent R).mp he
      dsimp only [receiveDelta] at he
      obtain ⟨keyType,addrHash,rfl⟩ := exists_of_mem_forAddresses he
      exact htxs tx (by simp)
    · exact ih (fun t ht => htxs t (by simp [ht])) e he

theorem TxsConnected.deltaIn {txids : Set Uint256} {txs : List CTransaction} {undos : List CTxUndo}
    {s s' : ConnectState Tree} (h : TxsConnected R nHeight i txs undos s s')
    (htxs : ∀tx∈txs,tx.hash∈txids) (hs : DeltaIn txids s.delta) : DeltaIn txids s'.delta := by
  induction h with
  | nil i s => exact hs
  | @cons i tx txs undo undos s s₁ s' valueout htx hrest ih =>
    apply ih fun t ht => htxs t (by simp [ht])
    rw [htx.delta]
    exact hs.append ((deltaIn_spendDeltas R (htxs tx (by simp)) s.view).append
      (deltaIn_receiveDeltas R (htxs tx (by simp))))

theorem KeysIn.connect {txids : Set Uint256} {index : IndexDb} {delta : IndexDelta} (I : IndexRules)
    (h : KeysIn txids index) (hdelta : DeltaIn txids delta) : KeysIn txids (index.connect I delta) := by
  constructor
  · intro k hk
    dsimp only [IndexDb.connect] at hk
    split_ifs at hk
    · rcases writeBatch_some hk with hk | ⟨e,he,rfl,-⟩
      · exact h.address k hk
      · exact hdelta.address e he
    · exact h.address k hk
  · intro k hk
    dsimp only [IndexDb.connect] at hk
    split_ifs at hk
    · rcases writeBatch_some hk with hk | ⟨e,he,rfl,hstored⟩
      · exact h.unspent k hk
      · rcases hdelta.unspent e he with hnull | hin
        · rw [if_pos hnull] at hstored
          exact absurd rfl hstored
        · exact hin
    · exact h.unspent k hk

end Keys

/-- The index entries of a block that spends nothing with an address are taken back. -/
theorem index_disconnect_connect {I : IndexRules} {index : IndexDb} {delta back : IndexDelta}
    {txids : Set Uint256} (hkeys : KeysIn txidsᶜ index) (hdelta : DeltaIn txids delta)
    (hspent : delta.spentIndex=[])
    (hnotnull : ∀e∈delta.addressUnspentIndex,e.1.txhash∈txids)
    (haddress : ∀e,e∈back.addressIndex ↔ e∈delta.addressIndex)
    (hunspent : ∀k,k∈back.addressUnspentIndex.map Prod.fst ↔
      k∈delta.addressUnspentIndex.map Prod.fst)
    (hnull : ∀e∈back.addressUnspentIndex,e.2.isNull=true) :
    (index.connect I delta).disconnect I back=index := by
  have hfreeA : ∀k∈back.addressIndex.map Prod.fst,index.address k=none := by
    intro k hk
    obtain ⟨e,he,rfl⟩ := List.mem_map.mp hk
    by_contra hne
    exact hkeys.address _ hne (hdelta.address e ((haddress e).mp he))
  have hfreeU : ∀k∈back.addressUnspentIndex.map Prod.fst,index.addressUnspent k=none := by
    intro k hk
    obtain ⟨e,he,rfl⟩ := List.mem_map.mp ((hunspent k).mp hk)
    by_contra hne
    exact hkeys.unspent _ hne (hnotnull e he)
  have hsubA : ∀k∈delta.addressIndex.map Prod.fst,k∈back.addressIndex.map Prod.fst := by
    intro k hk
    obtain ⟨e,he,rfl⟩ := List.mem_map.mp hk
    exact List.mem_map_of_mem ((haddress e).mpr he)
  cases index with
  | mk address addressUnspent spent =>
    simp only [IndexDb.connect,IndexDb.disconnect,IndexDb.mk.injEq]
    refine ⟨?_,?_,?_⟩
    · split_ifs
      · exact writeBatch_undo (fun _ _ => rfl) hsubA hfreeA
      · rfl
    · split_ifs
      · apply writeBatch_undo ?_ (fun k hk => (hunspent k).mpr hk) hfreeU
        intro e he
        exact if_pos (hnull e he)
      · rfl
    · rw [hspent]
      split_ifs <;> rfl

end Zdeex.Block
