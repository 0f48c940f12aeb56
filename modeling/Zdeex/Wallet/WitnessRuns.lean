import Zdeex.Wallet.SyncedNotes

namespace Zdeex.Wallet.WitnessCache

open Zdeex.Framework
open Zdeex.Merkle (HashClass)

section Chain

variable {H K : Type} [LinearOrder H] {O : HashClass Uint256} {L : Ledger H}
variable {chain : List (CBlockIndex H)} {b : CBlockIndex H}

omit [LinearOrder H] in
theorem validChain_nil : ValidChain O L ([] : List (CBlockIndex H)) where
  hashes := .nil
  transactions := .nil
  genesis := by simp
  room := by simp [Ledger.leaves]
  roots := fun k hk => absurd hk (Nat.not_lt_zero k)

omit [LinearOrder H] in
theorem ValidChain.init (h : ValidChain O L (chain++[b])) : ValidChain O L chain := by
  have htake : ∀k ≤ chain.length,(chain++[b]).take k=chain.take k :=
    fun k hk => List.take_append_of_le_length hk
  refine ⟨(List.pairwise_append.mp h.hashes).1,(List.pairwise_append.mp h.transactions).1,?_,?_,?_⟩
  · intro b' hb'
    refine h.genesis b' ?_
    rw [List.head?_append,hb']
    rfl
  · have hroom := L.length_leaves_take (chain++[b]) chain.length
    rw [htake _ le_rfl,List.take_length] at hroom
    exact hroom.trans h.room
  · intro k hk hpos b' hb'
    rw [← htake _ (by omega)]
    refine h.roots k ?_ hpos b' ?_
    · rw [List.length_append]
      omega
    · rw [List.getElem?_append_left hk]
      exact hb'

/-- A transaction of the last block is in no block below. -/
theorem ValidChain.not_mem (h : ValidChain O L (chain++[b])) {wtx : CWalletTx H K} {c : Nat}
    (hc : wtx.confirmedIn L chain=some c) : wtx.hash∉L.vtx b.hash := by
  obtain ⟨b',hb',-,htx⟩ := confirmedIn_spec hc
  have hpair := (List.pairwise_append.mp h.transactions).2.2
  exact hpair b' (List.mem_of_getElem? hb') b List.mem_cons_self wtx.hash htx

theorem confirmedIn_concat {wtx : CWalletTx H K} {c : Nat}
    (hc : wtx.confirmedIn L (chain++[b])=some c) :
    wtx.confirmedIn L chain=some c ∨ wtx.hash∈L.vtx b.hash := by
  rw [confirmedIn_append] at hc
  cases h : wtx.confirmedIn L chain with
  | some d =>
    rw [h,Option.some_or] at hc
    exact .inl hc
  | none =>
    rw [h,Option.none_or] at hc
    obtain ⟨i,hi,-⟩ := Option.map_eq_some_iff.mp hc
    obtain ⟨b',hb',-,htx⟩ := confirmedIn_spec hi
    obtain rfl := List.mem_singleton.mp (List.mem_of_getElem? hb')
    exact .inr htx

end Chain

section Same

variable {H K A F P : Type} [LinearOrder H] [LinearOrder K] [LinearOrder A]
variable {C : NoteCrypto K A F P} {O : HashClass Uint256} {L : Ledger H} {N : Node H}
variable {w w' w'' : CWallet H K A F}

/-- The keys and the identities of the notes stay. -/
structure Same (w w' : CWallet H K A F) : Prop where
  full : w'.mapSaplingFullViewingKeys=w.mapSaplingFullViewingKeys
  incoming : w'.mapSaplingIncomingViewingKeys=w.mapSaplingIncomingViewingKeys
  txs : List.Forall₂ (Kept SameTx) w.mapWallet w'.mapWallet

omit [LinearOrder H] [LinearOrder K] [LinearOrder A] in
theorem Same.trans (h : Same w w') (h' : Same w' w'') : Same w w'' where
  full := h'.full.trans h.full
  incoming := h'.incoming.trans h.incoming
  txs := forall₂_trans (R := Kept SameTx) (S := Kept SameTx)
    (fun _ _ _ hp hq => ⟨hq.1.trans hp.1,hp.2.trans hq.2⟩) h.txs h'.txs

omit [LinearOrder H] [LinearOrder K] [LinearOrder A] in
theorem Same.refl (w : CWallet H K A F) : Same w w :=
  ⟨rfl,rfl,List.forall₂_same.mpr fun p _ => ⟨rfl,.refl p.2⟩⟩

omit [LinearOrder H] [LinearOrder K] in
theorem AllSeen.same (hseen : AllSeen C L w) (h : Same w w') : AllSeen C L w' := by
  have hkeys : KeysLe w w' :=
    ⟨fun e he => ⟨e,h.full ▸ he,rfl⟩,fun e he => ⟨e,h.incoming ▸ he,rfl⟩⟩
  intro p' hp' e' he'
  obtain ⟨p,hp,hkept⟩ := forall₂_mem h.txs hp'
  obtain ⟨e,he,hsame⟩ := forall₂_mem hkept.2.notes he'
  rw [hsame.op]
  exact (hseen p hp e he).mono hkeys

omit [LinearOrder A] in
theorem buildWitnessCache_same (hw : Inv L w) (pindex : H) (height : Int) (witnessOnly : Bool) :
    Returns (Same w) (buildWitnessCache C O L N pindex height witnessOnly w) := by
  unfold buildWitnessCache verifyAndSetInitialWitness
  rw [bind_assoc]
  refine (verifyLoop_spec height witnessOnly hw.keyed hw.owned height).returns.bind fun s hs => ?_
  have hsame : Same w {w with mapWallet := s.1} :=
    ⟨rfl,rfl,hs.imp fun p p' h => ⟨h.1,h.2.toSameTx⟩⟩
  have hwitnessed : List.Forall₂ (Kept (Witnessed L N w)) w.mapWallet s.1 := by
    refine hs.imp fun p p' h => ⟨h.1,⟨h.2.toSameTx,h.2.keyed⟩,fun hc e he => ?_⟩
    exact (h.2.confirmed hc e he).1
  rw [pure_bind]
  dsimp only
  split_ifs
  · exact hsame
  · refine (buildLoop_spec pindex _ _ hwitnessed).returns.bind fun l hl => ?_
    exact ⟨rfl,rfl,hl.imp fun p p' h => ⟨h.1,h.2.1.toSameTx⟩⟩

omit [LinearOrder H] [LinearOrder K] [LinearOrder A] in
theorem same_mapNotes {f : SaplingNoteData K → SaplingNoteData K} (hf : ∀nd,(f nd).ivk=nd.ivk)
    (w : CWallet H K A F) : Same w (w.mapNotes f) := by
  refine ⟨rfl,rfl,List.forall₂_map_right_iff.mpr (List.forall₂_same.mpr fun p _ => ?_)⟩
  refine ⟨rfl,rfl,rfl,rfl,?_⟩
  exact List.forall₂_map_right_iff.mpr (List.forall₂_same.mpr fun e _ => ⟨rfl,hf e.2⟩)

omit [LinearOrder A] in
/-- New nullifiers for one transaction; the others stay. -/
theorem updateWalletTx_same (w : CWallet H K A F) (hash : H) :
    Returns (fun w' => Same w w' ∧ ∀p∈w'.mapWallet,p.1≠hash → p∈w.mapWallet)
      (updateWalletTx C L w hash) := by
  refine Meets.bind (Meets.mapM (R := fun p p' => Kept SameTx p p' ∧ (p.1≠hash → p'=p))
    fun p _ => ?_) fun l hl => ?_
  · split_ifs with hkey
    · refine (updateTx_spec w p.2).returns.bind fun wtx hwtx => ?_
      exact ⟨⟨rfl,hwtx.1⟩,fun h => absurd hkey h⟩
    · exact ⟨⟨rfl,.refl p.2⟩,fun _ => rfl⟩
  · refine ⟨⟨rfl,rfl,hl.imp fun p p' h => h.1⟩,fun p' hp' hne => ?_⟩
    obtain ⟨p,hp,hkept,hstay⟩ := forall₂_mem hl hp'
    rw [hstay (hkept.1 ▸ hne)]
    exact hp

omit [LinearOrder A] in
theorem updateNullifierNoteMapForBlock_same (w : CWallet H K A F) (block : H) :
    Returns (fun w' => Same w w' ∧ ∀p∈w'.mapWallet,p.1∉L.vtx block → p∈w.mapWallet)
      (updateNullifierNoteMapForBlock C L block w) := by
  unfold updateNullifierNoteMapForBlock
  refine Meets.foldlM_keeps (I := fun w' => Same w w' ∧
    ∀p∈w'.mapWallet,p.1∉L.vtx block → p∈w.mapWallet) ⟨.refl w,fun p hp _ => hp⟩ ?_
  intro hash hhash w₁ h₁
  refine (updateWalletTx_same w₁ hash).post fun w₂ h₂ => ⟨h₁.1.trans h₂.1,fun p hp hnot => ?_⟩
  refine h₁.2 p (h₂.2 p hp ?_) hnot
  rintro rfl
  exact hnot hhash

end Same

section Runs

variable {H K A F P : Type} [LinearOrder H] [LinearOrder K] [LinearOrder A]
variable {C : NoteCrypto K A F P} {O : HashClass Uint256} {L : Ledger H} {N : Node H}
variable {reorg longest longest' c : Nat} {chain : List (CBlockIndex H)} {b : CBlockIndex H}
variable {op : SaplingOutPoint H} {nd : SaplingNoteData K}

omit [LinearOrder H] [LinearOrder K] [LinearOrder A] in
theorem Sound.connect (h : Sound C O L reorg longest chain op c nd) (b : CBlockIndex H)
    (hl : longest≤longest') : Sound C O L reorg longest' (chain++[b]) op c nd := by
  intro nf hnf
  obtain ⟨hof,hws⟩ := h nf hnf
  refine ⟨hof,hws.imp_right ?_⟩
  rintro ⟨height,ht⟩
  exact ⟨height,ht.connect b hl⟩

omit [LinearOrder H] [LinearOrder K] [LinearOrder A] in
/-- The last block goes: a note with several witnesses loses the one of that block, and one
with a single witness has it at its own block, or the cache was never so short. -/
theorem Sound.disconnect (h : Sound C O L reorg longest (chain++[b]) op c nd)
    (hc : c<chain.length) (hreorg : N.MAX_REORG_LENGTH=reorg)
    (hdepth : longest<chain.length+N.WITNESS_CACHE_SIZE) (hrecent : N.Recent C L op)
    (hdate : nd.nullifier.isSome → 1<nd.witnesses.length → nd.witnessHeight=(chain.length : Int)) :
    Sound C O L reorg longest chain op c (decrementNote N chain.length nd) := by
  have hlen : (chain++[b]).length=chain.length+1 := by simp
  have hdrop : (chain++[b]).dropLast=chain := List.dropLast_concat
  unfold decrementNote
  cases hnull : nd.nullifier with
  | none =>
    intro nf hnf
    rw [hnull] at hnf
    cases hnf
  | some nf =>
    obtain ⟨hof,hws⟩ := h nf hnull
    dsimp only
    split_ifs with hpop
    · intro nf' hnf'
      refine ⟨(h nf' (hnull.trans hnf')).1,.inr ?_⟩
      have hne : nd.witnesses≠[] := List.ne_nil_of_length_pos (by omega)
      obtain ⟨height,ht⟩ := hws.resolve_left hne
      have hat := hdate (by rw [hnull]; rfl) hpop.2.2
      have hheight : height=chain.length := by
        have := ht.height
        omega
      subst hheight
      have hpopped := ht.pop hpop.2.2 hlen
      rw [hdrop,hnull] at hpopped
      exact ⟨_,hpopped⟩
    · intro nf' hnf'
      refine ⟨(h nf' hnf').1,hws.imp_right ?_⟩
      rintro ⟨height,ht⟩
      have hbelow := ht.below
      have hheight := ht.height
      have hstart := ht.start
      have hfull := ht.full
      have hsize : N.WITNESS_CACHE_SIZE=reorg+10 := by
        rw [Node.WITNESS_CACHE_SIZE,hreorg]
      have hone : nd.witnesses.length≤1 := by
        by_contra hmore
        refine hpop ⟨hrecent nf hof,?_,by omega⟩
        omega
      have hdropped := ht.disconnect (by omega)
      rw [hdrop] at hdropped
      exact ⟨height,hdropped⟩

/-- What holds between the notifications. -/
structure Consistent (C : NoteCrypto K A F P) (O : HashClass Uint256) (L : Ledger H) (reorg : Nat)
    (op : SaplingOutPoint H) (s : Notified H K A F) : Prop where
  chain : ValidChain O L s.chain
  longest : s.chain.length ≤ s.longest
  inv : Inv L s.wallet
  seen : AllSeen C L s.wallet
  sound : ∀p∈s.wallet.mapWallet,∀c,p.2.confirmedIn L s.chain=some c →
    ∀e∈p.2.mapSaplingNoteData,e.1=op → Sound C O L reorg s.longest s.chain op c e.2

omit [LinearOrder H] [LinearOrder K] [LinearOrder A] in
theorem sound_of_unset {wtx : CWalletTx H K} (h : Unset wtx)
    {e : SaplingOutPoint H × SaplingNoteData K} (he : e∈wtx.mapSaplingNoteData) :
    Sound C O L reorg longest chain op c e.2 := by
  intro nf hnf
  rw [h e he] at hnf
  cases hnf

theorem connect_consistent (hO : O.Lawful) {s : Notified H K A F}
    (hs : Consistent C O L reorg op s) {block : CBlockIndex H} {how : H → Involvement × Bool}
    {witnessOnly : Bool}
    (hfollows : Follows O L reorg s (.connect block N how witnessOnly))
    (hregular : Regular C L op s (.connect block N how witnessOnly)) (hrecent : N.Recent C L op) :
    Returns (fun s' => Consistent C O L reorg op s' ∧ (witnessOnly=false → AtTip O L s' op))
      (notify C O L s (.connect block N how witnessOnly)) := by
  obtain ⟨hchain,hN,hreorg,htaken⟩ := hfollows
  have hlength : (s.chain++[block]).length=s.chain.length+1 := by simp
  have hlong : (s.chain++[block]).length ≤ max s.longest (s.chain.length+1) := by omega
  unfold notify
  have hsync := syncBlock_synced hs.inv hs.seen block.hash (some block.hash) how
  refine (hsync.both hregular).bind fun w hw => ?_
  obtain ⟨hw,hset⟩ := hw
  have hsound : ∀p∈w.mapWallet,∀c,p.2.confirmedIn L (s.chain++[block])=some c →
      ∀e∈p.2.mapSaplingNoteData,e.1=op → Sound C O L reorg (max s.longest (s.chain.length+1))
        (s.chain++[block]) op c e.2 := by
    intro p hp c hc e he hop
    have hkey := hw.inv.keys p hp
    by_cases hmem : p.1∈L.vtx block.hash
    · rcases hw.same p hp hmem with hunset | ⟨hp₀,hcond⟩
      · exact sound_of_unset hunset he
      · have hsome : (s.wallet.mapWallet.lookup p.1).isSome := by
          rw [List.lookup_isSome_iff]
          exact ⟨p,hp₀,by simp⟩
        have htake := htaken p.1 hmem hsome
        rw [htake.1,htake.2] at hcond
        exact absurd hcond (by simp)
    · have hc' : p.2.confirmedIn L s.chain=some c := by
        refine (confirmedIn_concat hc).resolve_right ?_
        rw [hkey]
        exact hmem
      exact (hs.sound p (hw.other p hp hmem) c hc' e he hop).connect block (le_max_left _ _)
  have hfound : ∀p∈w.mapWallet,Found C O L reorg (max s.longest (s.chain.length+1))
      (s.chain++[block]) op p.2 := by
    intro p hp
    refine ⟨fun e he => hw.inv.owned p hp e he,fun c hc k e hk hop => ?_⟩
    refine ⟨hsound p hp c hc e (List.mem_of_getElem? hk) hop,fun hnone hpos => ?_⟩
    refine hset p hp (by rw [hc]; rfl) e ?_ hop hnone
    refine List.mem_of_getElem? (i := k-1) ?_
    rw [List.getElem?_tail,Nat.sub_add_cancel hpos]
    exact hk
  have hstep := step_spec (C := C) (O := O) hw.inv
    (.connected N block.hash s.chain.length witnessOnly)
  have hbuilt := buildWitnessCache_built (w := w) hO witnessOnly hchain hN hreorg hlong
    hrecent hfound
  have hsame := buildWitnessCache_same (C := C) (O := O) (N := N) hw.inv block.hash s.chain.length
    witnessOnly
  refine ((hstep.both hbuilt).both hsame).bind fun w' hw' => ?_
  obtain ⟨⟨⟨-,hinv⟩,hbuilt⟩,hsame⟩ := hw'
  refine ⟨⟨hchain,hlong,hinv,hw.seen.same hsame,fun p hp c hc e he hop nf hnf => ?_⟩,?_⟩
  · obtain ⟨nf',height,hnf',hof,-,ht⟩ := hbuilt p hp c hc e he hop
    obtain rfl := Option.some.inj (hnf.symm.trans hnf')
    exact ⟨hof,.inr ⟨height,ht⟩⟩
  · rintro rfl p hp hconf e he hop
    obtain ⟨c,hc⟩ := Option.isSome_iff_exists.mp hconf
    obtain ⟨nf,height,-,-,hn,ht⟩ := hbuilt p hp c hc e he hop
    have hpos := confirmedIn_pos hchain hc (hinv.owned p hp e he)
    have hbelow := ht.below
    have hheight : height=s.chain.length := by
      have hn : (s.chain.length : Int)≤height := hn
      omega
    subst hheight
    have hroot := ht.root hO hchain hpos
    refine ⟨?_,?_⟩
    · dsimp only
      rw [ht.height,hlength]
      omega
    · rw [hroot]
      simp

omit [LinearOrder H] [LinearOrder K] in
theorem decrementNote_ivk (N : Node H) (height : Int) (nd : SaplingNoteData K) :
    (decrementNote N height nd).ivk=nd.ivk := by
  unfold decrementNote
  cases nd.nullifier with
  | none => rfl
  | some nf =>
    dsimp only
    split_ifs <;> rfl

theorem disconnected_same (w : CWallet H K A F) (block : H) (height : Nat) :
    Returns (fun w' => Same w w' ∧ ∀p∈w'.mapWallet,p.1∉L.vtx block →
        p∈(w.mapNotes (decrementNote N height)).mapWallet)
      (step C O L w (.disconnected N block height)) := by
  unfold step
  refine Meets.bind (G := fun w' => w'=w.mapNotes (decrementNote N height)) ?_ fun w' hw' => ?_
  · unfold decrementNoteWitnesses
    split_ifs
    · rfl
    · exact Meets.error id
  · subst hw'
    refine (updateNullifierNoteMapForBlock_same _ block).post fun w' h => ⟨?_,h.2⟩
    exact (same_mapNotes (decrementNote_ivk N height) w).trans h.1

theorem disconnect_consistent {s : Notified H K A F} (hs : Consistent C O L reorg op s)
    {how : H → Involvement × Bool} (hfollows : Follows O L reorg s (.disconnect N how))
    (hdate : UpToDate L s op) (hrecent : N.Recent C L op) :
    Returns (Consistent C O L reorg op) (notify C O L s (.disconnect N how)) := by
  obtain ⟨hlen,hreorg,hdepth⟩ := hfollows
  obtain ⟨chain,b,hsplit⟩ : ∃chain b,s.chain=chain++[b] := by
    refine (List.eq_nil_or_concat' s.chain).resolve_left ?_
    exact List.ne_nil_of_length_pos (by omega)
  have hlast : s.chain.getLast?=some b := by
    rw [hsplit]
    exact List.getLast?_concat
  have hdrop : s.chain.dropLast=chain := by
    rw [hsplit]
    exact List.dropLast_concat
  have hlength : s.chain.length=chain.length+1 := by
    rw [hsplit]
    simp
  have hpred : s.chain.length-1=chain.length := by omega
  have hchain := hs.chain
  rw [hsplit] at hchain
  have hlong := hs.longest
  unfold notify
  rw [hlast]
  dsimp only
  refine (syncBlock_synced hs.inv hs.seen b.hash none how).bind fun w hw => ?_
  have hstep := step_spec (C := C) (O := O) hw.inv (.disconnected N b.hash (s.chain.length-1))
  have hsame := disconnected_same (C := C) (O := O) (L := L) (N := N) w b.hash (s.chain.length-1)
  refine (hstep.both hsame).bind fun w' hw' => ?_
  obtain ⟨⟨-,hinv⟩,hsame,hother⟩ := hw'
  refine ⟨?_,?_,hinv,hw.seen.same hsame,fun p hp c hc e he hop => ?_⟩
  · dsimp only
    rw [hdrop]
    exact hchain.init
  · dsimp only
    rw [hdrop]
    omega
  · dsimp only at hc ⊢
    rw [hdrop] at hc ⊢
    have hnot := hchain.not_mem hc
    rw [hinv.keys p hp] at hnot
    obtain ⟨p₁,hp₁,rfl⟩ := List.mem_map.mp (hother p hp hnot)
    obtain ⟨e₁,he₁,rfl⟩ := List.mem_map.mp he
    have hp₀ := hw.other p₁ hp₁ hnot
    have hc₁ : p₁.2.confirmedIn L chain=some c := hc
    have hc₀ : p₁.2.confirmedIn L s.chain=some c := by
      rw [hsplit,confirmedIn_append,hc₁]
      rfl
    have hsound := hs.sound p₁ hp₀ c hc₀ e₁ he₁ hop
    rw [hsplit] at hsound
    rw [hpred]
    refine hsound.disconnect (confirmedIn_lt hc₁) hreorg (by omega) hrecent fun hsome hmore => ?_
    have hat := hdate p₁ hp₀ (by rw [hdrop,hc₁]; rfl) e₁ he₁ hop hsome hmore
    omega

theorem call_consistent {s : Notified H K A F} (hs : Consistent C O L reorg op s)
    {event : Event H K A F} (hfollows : Follows O L reorg s (.call event)) :
    Returns (Consistent C O L reorg op) (notify C O L s (.call event)) := by
  have hstep := step_spec (C := C) (O := O) hs.inv event
  have hkeep : ∀w',Admitted L s.wallet event ∧ Inv L w' → KeysLe s.wallet w' →
      (∀p∈w'.mapWallet,p∈s.wallet.mapWallet) → Consistent C O L reorg op {s with wallet := w'} :=
    fun w' hw' hkeys hmem => ⟨hs.chain,hs.longest,hw'.2,
      fun p hp e he => (hs.seen p (hmem p hp) e he).mono hkeys,fun p hp => hs.sound p (hmem p hp)⟩
  unfold notify
  cases event with
  | addFullViewingKey ivk fvk =>
    refine hkeep _ (hstep.of_ok rfl) ⟨fun e he => ?_,fun e he => ⟨e,he,rfl⟩⟩ fun p hp => hp
    by_cases hkey : e.1=ivk
    · exact ⟨(ivk,fvk),mem_assign.mpr (.inl rfl),hkey.symm⟩
    · exact ⟨e,mem_assign.mpr (.inr ⟨he,hkey⟩),rfl⟩
  | addIncomingViewingKey address ivk =>
    refine hkeep _ (hstep.of_ok rfl) ⟨fun e he => ⟨e,he,rfl⟩,fun e he => ?_⟩ fun p hp => hp
    by_cases hkey : e.1=address
    · exact ⟨(address,ivk),mem_assign.mpr (.inl rfl),(hfollows e he hkey).symm⟩
    · exact ⟨e,mem_assign.mpr (.inr ⟨he,hkey⟩),rfl⟩
  | syncTransaction tx pblock i stray =>
    refine (hstep.both (syncTransaction_synced hs.inv hs.seen tx pblock i stray)).bind
      fun w' hw' => ?_
    refine ⟨hs.chain,hs.longest,hw'.1.2,hw'.2.seen,fun p hp c hc e he hop => ?_⟩
    by_cases hkey : p.1=tx
    · rcases hw'.2.same p hp hkey with hunset | ⟨hp₀,-⟩
      · exact sound_of_unset hunset he
      · exact hs.sound p hp₀ c hc e he hop
    · exact hs.sound p (hw'.2.other p hp hkey) c hc e he hop
  | connected N pindex height witnessOnly => exact hfollows.elim
  | disconnected N pblock height => exact hfollows.elim
  | clearNoteWitnessCache =>
    have hinv := (hstep.of_ok rfl).2
    have hsame := same_mapNotes (F := F) (A := A) (f := fun nd : SaplingNoteData K =>
      {nd with witnesses := [],witnessHeight := -1}) (fun _ => rfl) s.wallet
    refine ⟨hs.chain,hs.longest,hinv,hs.seen.same hsame,fun p hp c hc e he hop nf hnf => ?_⟩
    obtain ⟨p₀,hp₀,rfl⟩ := List.mem_map.mp hp
    obtain ⟨e₀,he₀,rfl⟩ := List.mem_map.mp he
    exact ⟨(hs.sound p₀ hp₀ c hc e₀ he₀ hop nf hnf).1,.inl rfl⟩
  | eraseFromWallet hash =>
    refine hkeep _ (hstep.of_ok rfl) ⟨fun e he => ⟨e,he,rfl⟩,fun e he => ⟨e,he,rfl⟩⟩ fun p hp => ?_
    exact (List.mem_filter.mp hp).1

theorem notify_eq {s s' : Notified H K A F} {n : Notification H K A F}
    (hn : heard C O L s n=some s') : notify C O L s n=.ok s' := by
  unfold heard at hn
  cases h : notify C O L s n with
  | error f =>
    rw [h] at hn
    cases hn
  | ok t =>
    rw [h] at hn
    exact congrArg _ (Option.some.inj hn)

theorem notify_consistent (hO : O.Lawful) {s s' : Notified H K A F}
    {n : Notification H K A F}
    (hguard : (Follows O L reorg s n ∧ Regular C L op s n) ∧ n.Recent C L op)
    (hs : Consistent C O L reorg op s) (hn : heard C O L s n=some s') :
    Consistent C O L reorg op s' := by
  have hok := notify_eq hn
  cases n with
  | connect block N how witnessOnly =>
    exact ((connect_consistent hO hs hguard.1.1 hguard.1.2 hguard.2).of_ok hok).1
  | disconnect N how => exact (disconnect_consistent hs hguard.1.1 hguard.1.2 hguard.2).of_ok hok
  | call event => exact (call_consistent hs hguard.1.1).of_ok hok

theorem init_consistent : Consistent C O L reorg op (.init : Notified H K A F) := by
  refine ⟨validChain_nil,le_rfl,⟨?_,?_,?_⟩,?_,?_⟩
  all_goals exact fun p hp => absurd hp List.not_mem_nil

/-- After every connected block for which the witnesses are built in full, a note has a
witness at the tip with the root of the tip. -/
theorem witnesses_track (C : NoteCrypto K A F P) (O : HashClass Uint256) (hO : O.Lawful)
    (L : Ledger H) (reorg : Nat) (op : SaplingOutPoint H) (ns : List (Notification H K A F))
    (block : CBlockIndex H) (N : Node H) (how : H → Involvement × Bool) {s : Notified H K A F}
    (hguard : Guarded (heard C O L) (fun s n => Follows O L reorg s n ∧ Regular C L op s n)
      (ns++[.connect block N how false]) .init)
    (hrecent : ∀n∈ns++[.connect block N how false],n.Recent C L op)
    (hrun : Framework.run (heard C O L) (ns++[.connect block N how false]) .init=some s) :
    AtTip O L s op := by
  rw [run_append] at hrun
  obtain ⟨t,ht,hlast⟩ := Option.bind_eq_some_iff.mp hrun
  obtain ⟨hbefore,hnow,-⟩ := (hguard.and hrecent).append ht
  have hconsistent : Consistent C O L reorg op t :=
    run_keeps (fun _ _ _ hg hs hn => notify_consistent hO hg hs hn) ht hbefore init_consistent
  obtain ⟨s',hs',hnil⟩ := Option.bind_eq_some_iff.mp hlast
  obtain rfl := Option.some.inj hnil
  exact ((connect_consistent hO hconsistent hnow.1.1 hnow.1.2 hnow.2).of_ok (notify_eq hs')).2 rfl

end Runs

section Decidable

variable {H K A F P : Type} [LinearOrder H] [LinearOrder K] [LinearOrder A]
variable (C : NoteCrypto K A F P) (O : HashClass Uint256) (L : Ledger H)

deriving instance DecidableEq for CBlockIndex

instance validChain_decidable (chain : List (CBlockIndex H)) : Decidable (ValidChain O L chain) :=
  decidable_of_iff
    ((chain.Pairwise fun b b' => b.hash≠b'.hash) ∧
      (chain.Pairwise fun b b' => ∀tx∈L.vtx b.hash,∀tx'∈L.vtx b'.hash,tx≠tx') ∧
      (∀b∈chain.head?,L.commitments b.hash=[]) ∧
      (L.leaves chain).length≤2^SAPLING_INCREMENTAL_MERKLE_TREE_DEPTH ∧
      ∀k<chain.length,0<k → ∀b∈chain[k]?,b.hashFinalSaplingRoot=
        (L.saplingTree O (chain.take (k+1))).root O SAPLING_INCREMENTAL_MERKLE_TREE_DEPTH)
    ⟨fun h => ⟨h.1,h.2.1.imp fun h tx htx hin => h tx htx tx hin rfl,h.2.2.1,h.2.2.2.1,h.2.2.2.2⟩,
      fun h => ⟨h.hashes,h.transactions.imp fun h tx htx tx' htx' (heq : tx=tx') =>
        h tx htx (heq▸htx'),
        h.genesis,h.room,h.roots⟩⟩

instance serves_decidable (N : Node H) (chain : List (CBlockIndex H)) :
    Decidable (N.Serves O L chain) :=
  decidable_of_iff (chain <+: N.chainActive ∧
      (∀k<chain.length,∀b∈chain[k]?,(N.getSaplingAnchorAt b.hashFinalSaplingRoot).getD .new=
        L.saplingTree O (chain.take (k+1))) ∧ ∀b∈chain,N.interrupted b.hash=false)
    ⟨fun h => ⟨h.1,h.2.1,h.2.2⟩,fun h => ⟨h.active,h.anchors,h.uninterrupted⟩⟩

instance follows_decidable (reorg : Nat) (s : Notified H K A F) :
    (n : Notification H K A F) → Decidable (Follows O L reorg s n)
  | .connect block N how _ => inferInstanceAs (Decidable
      (ValidChain O L (s.chain++[block]) ∧ N.Serves O L (s.chain++[block]) ∧
        N.MAX_REORG_LENGTH=reorg ∧ ∀tx∈L.vtx block.hash,(s.wallet.mapWallet.lookup tx).isSome →
          (how tx).1.emptyCoinbase=false ∧ (how tx).1.refused=false))
  | .disconnect N _ => inferInstanceAs (Decidable
      (1<s.chain.length ∧ N.MAX_REORG_LENGTH=reorg ∧
        s.longest<s.chain.length-1+N.WITNESS_CACHE_SIZE))
  | .call (.connected _ _ _ _) => inferInstanceAs (Decidable False)
  | .call (.disconnected _ _ _) => inferInstanceAs (Decidable False)
  | .call (.addIncomingViewingKey address ivk) => inferInstanceAs (Decidable
      (∀e∈s.wallet.mapSaplingIncomingViewingKeys,e.1=address → e.2=ivk))
  | .call (.addFullViewingKey _ _) => inferInstanceAs (Decidable True)
  | .call (.syncTransaction _ _ _ _) => inferInstanceAs (Decidable True)
  | .call .clearNoteWitnessCache => inferInstanceAs (Decidable True)
  | .call (.eraseFromWallet _) => inferInstanceAs (Decidable True)

instance settled_decidable (chain : List (CBlockIndex H)) (op : SaplingOutPoint H)
    (w : CWallet H K A F) : Decidable (Settled L chain op w) := by
  unfold Settled
  infer_instance

instance upToDate_decidable (s : Notified H K A F) (op : SaplingOutPoint H) :
    Decidable (UpToDate L s op) := by
  unfold UpToDate
  infer_instance

instance atTip_decidable (s : Notified H K A F) (op : SaplingOutPoint H) :
    Decidable (AtTip O L s op) := by
  unfold AtTip
  infer_instance

instance regular_decidable (op : SaplingOutPoint H) (s : Notified H K A F) :
    (n : Notification H K A F) → Decidable (Regular C L op s n)
  | .connect block _ how _ => inferInstanceAs (Decidable (Meets (fun _ => False)
      (Settled L (s.chain++[block]) op)
        (syncBlock C L block.hash (some block.hash) how s.wallet)))
  | .disconnect _ _ => inferInstanceAs (Decidable (UpToDate L s op))
  | .call _ => inferInstanceAs (Decidable True)

end Decidable

/-- Outputs with a small commitment decrypt. -/
def sealedCrypto : NoteCrypto Nat Nat Nat Unit where
  decrypt _ _ _ cm := if cm<100 then some () else none
  address ivk _ := some ivk
  nullifier _ ivk fvk position := some (BitVec.ofNat 256 (ivk+fvk)+position.setWidth 256)

/-- The transaction 7 with two notes is in the blocks 1 and 5, in the latter behind another. -/
def twoNotes : Ledger Nat where
  vtx block := if block=0 then [] else if block=1 then [7] else
    if block=5 then [105,7] else [100+block]
  vShieldedOutput tx := if tx=7 then [⟨42,0,[]⟩,⟨43,0,[]⟩] else
    [⟨BitVec.ofNat 256 (100+tx),0,[]⟩]

/-- The blocks with these hashes and the roots of their trees. -/
def chainOf (hashes : List Nat) : List (CBlockIndex Nat) :=
  hashes.zipIdx.map fun e => ⟨e.1,(twoNotes.saplingTree Merkle.addHash
    ((hashes.take (e.2+1)).map fun h => ⟨h,0⟩)).root Merkle.addHash
      SAPLING_INCREMENTAL_MERKLE_TREE_DEPTH⟩

/-- A node on this chain, on which all spends are of the given depth. -/
def nodeOf (hashes : List Nat) (depth : Nat) : Node Nat where
  chainActive := chainOf hashes
  getSaplingAnchorAt rt := (hashes.inits.map fun l => twoNotes.saplingTree Merkle.addHash
    (l.map fun h => ⟨h,0⟩)).find? fun t =>
      decide (t.root Merkle.addHash SAPLING_INCREMENTAL_MERKLE_TREE_DEPTH=rt)
  getSaplingSpendDepth _ := depth
  readable _ := true
  interrupted _ := false
  MAX_REORG_LENGTH := 1
  HUSH_REWIND := 0

def addKey : Notification Nat Nat Nat Nat := .call (.addFullViewingKey 5 6)

def connectTo (hashes : List Nat) (depth : Nat) (witnessOnly : Bool) :
    Notification Nat Nat Nat Nat :=
  .connect ((chainOf hashes).getLastD ⟨0,0⟩) (nodeOf hashes depth)
    (fun _ => (⟨false,false,false⟩,false)) witnessOnly

def disconnectTo (hashes : List Nat) : Notification Nat Nat Nat Nat :=
  .disconnect (nodeOf hashes 0) fun _ => (⟨false,false,false⟩,false)

abbrev heardThere := heard sealedCrypto Merkle.addHash twoNotes

def lastReplaced : List (Notification Nat Nat Nat Nat) :=
  [addKey,connectTo [0] 0 false,connectTo [0,1] 0 false,connectTo [0,1,2] 0 false,
    disconnectTo [0,1]]

/-- A note with another before it in its transaction, and the last block is replaced. -/
theorem witnesses_track_replaced :
    ∃s,Framework.run heardThere (lastReplaced++[connectTo [0,1,4] 0 false]) .init=some s ∧
      s.wallet.mapWallet≠[] ∧ AtTip Merkle.addHash twoNotes s ⟨7,1⟩ := by
  have hguard : Guarded heardThere (fun s n => Follows Merkle.addHash twoNotes 1 s n ∧
      Regular sealedCrypto twoNotes ⟨7,1⟩ s n) (lastReplaced++[connectTo [0,1,4] 0 false])
      .init := by decide +kernel
  have hrecent : ∀n∈lastReplaced++[connectTo [0,1,4] 0 false],
      n.Recent sealedCrypto twoNotes ⟨7,1⟩ := by
    simp only [lastReplaced,List.cons_append,List.nil_append,List.forall_mem_cons]
    refine ⟨trivial,?_,?_,?_,?_,?_,fun n hn => absurd hn List.not_mem_nil⟩
    all_goals exact fun nf _ => Nat.zero_le _
  have hrun : (Framework.run heardThere (lastReplaced++[connectTo [0,1,4] 0 false]) .init).any
      (fun s => !s.wallet.mapWallet.isEmpty)=true := by decide +kernel
  obtain ⟨s,hs,hne⟩ := (Option.any_eq_true _ _).mp hrun
  refine ⟨s,hs,by simpa using hne,?_⟩
  exact witnesses_track sealedCrypto Merkle.addHash Merkle.addHash_lawful twoNotes 1 ⟨7,1⟩ _ _ _ _
    hguard hrecent hs

/-- The run does what `Follows` asks for, and the note is not at the tip. -/
def Lost (ns : List (Notification Nat Nat Nat Nat)) (op : SaplingOutPoint Nat) : Prop :=
  Guarded heardThere (Follows Merkle.addHash twoNotes 1) ns .init ∧
    (Framework.run heardThere ns .init).any (fun s =>
      !decide (AtTip Merkle.addHash twoNotes s op))=true

/-- What two of the further conditions are for: a witness is dropped although its block stays, and
the second note keeps the witness of a block that is gone. -/
theorem witnesses_lost :
    Lost [addKey,connectTo [0] 0 false,connectTo [0,1] 0 false,connectTo [0,1,2] 0 false,
      connectTo [0,1,2,3] 0 true,disconnectTo [0,1,2],connectTo [0,1,2,4] 0 false] ⟨7,0⟩ ∧
    Lost [addKey,connectTo [0] 0 false,connectTo [0,1] 0 false,disconnectTo [0],
      connectTo [0,5] 0 false] ⟨7,1⟩ := by
  unfold Lost
  decide +kernel

end Zdeex.Wallet.WitnessCache
