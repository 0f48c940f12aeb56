import Zdeex.Wallet.TrackedNotes

namespace Zdeex.Wallet.WitnessCache

open Zdeex.Framework
open Zdeex.Merkle (HashClass)

section Confirmed

variable {H K A F P : Type} [LinearOrder H]
variable {O : HashClass Uint256} {L : Ledger H} {N : Node H} {chain : List (CBlockIndex H)}
variable {wtx wtx' : CWalletTx H K} {c : Nat}

theorem Node.heightOf_eq (N : Node H) (wtx : CWalletTx H K) :
    N.heightOf L wtx=wtx.confirmedIn L N.chainActive := by
  unfold heightOf CWalletTx.confirmedIn
  cases wtx.hashBlock with
  | none => rfl
  | some hashBlock => cases wtx.nIndex <;> rfl

/-- Where a transaction is confirmed does not depend on its notes. -/
theorem confirmedIn_congr
    (h : wtx'.hash=wtx.hash ∧ wtx'.hashBlock=wtx.hashBlock ∧ wtx'.nIndex=wtx.nIndex) :
    wtx'.confirmedIn L chain=wtx.confirmedIn L chain := by
  rw [CWalletTx.confirmedIn,h.1,h.2.1,h.2.2]
  rfl

theorem confirmedIn_append (wtx : CWalletTx H K) (xs ys : List (CBlockIndex H)) :
    wtx.confirmedIn L (xs++ys)=(wtx.confirmedIn L xs).or
      ((wtx.confirmedIn L ys).map fun i => i+xs.length) := by
  unfold CWalletTx.confirmedIn
  cases wtx.hashBlock with
  | none => rfl
  | some hashBlock =>
    cases wtx.nIndex with
    | none => rfl
    | some nIndex =>
      rw [Option.bind_some,Option.bind_some]
      split_ifs with hpos
      · simp [List.findIdx?_append,hpos]
      · simp [hpos]

theorem confirmedIn_spec (h : wtx.confirmedIn L chain=some c) :
    ∃b,chain[c]?=some b ∧ wtx.hashBlock=some b.hash ∧ wtx.hash∈L.vtx b.hash := by
  obtain ⟨hashBlock,hblock,h⟩ := Option.bind_eq_some_iff.mp h
  obtain ⟨nIndex,hindex,h⟩ := Option.bind_eq_some_iff.mp h
  split_ifs at h with hpos
  obtain ⟨hlt,hb,-⟩ := List.findIdx?_eq_some_iff_getElem.mp h
  obtain rfl := of_decide_eq_true hb
  exact ⟨chain[c],List.getElem?_eq_getElem hlt,hblock,List.mem_of_getElem? hpos⟩

theorem confirmedIn_lt (h : wtx.confirmedIn L chain=some c) : c<chain.length := by
  obtain ⟨b,hb,-⟩ := confirmedIn_spec h
  exact (List.getElem?_eq_some_iff.mp hb).1

/-- What is confirmed in the notified blocks is confirmed at the same height for the node. -/
theorem Node.Serves.heightOf_iff (hN : N.Serves O L chain) :
    (N.heightOf L wtx=some c ∧ c<chain.length) ↔ wtx.confirmedIn L chain=some c := by
  obtain ⟨rest,hrest⟩ := hN.active
  rw [N.heightOf_eq,← hrest,confirmedIn_append]
  cases hc : wtx.confirmedIn L chain with
  | some d =>
    rw [Option.some_or]
    refine ⟨And.left,fun h => ⟨h,?_⟩⟩
    obtain rfl := Option.some.inj h
    exact confirmedIn_lt hc
  | none =>
    rw [Option.none_or]
    refine ⟨fun h => ?_,fun h => by cases h⟩
    obtain ⟨i,-,hi⟩ := Option.map_eq_some_iff.mp h.1
    omega

/-- Notes stand above the genesis block. -/
theorem confirmedIn_pos (hchain : ValidChain O L chain) (h : wtx.confirmedIn L chain=some c)
    {op : SaplingOutPoint H} (hop : Owned L wtx.hash op) : 0<c := by
  obtain ⟨b,hb,-,htx⟩ := confirmedIn_spec h
  by_contra hzero
  obtain rfl : c=0 := by omega
  have hnone := hchain.genesis b (by rw [List.head?_eq_getElem?]; exact hb)
  have hempty := List.flatMap_eq_nil_iff.mp hnone wtx.hash htx
  have hlt := hop.2
  rw [List.map_eq_nil_iff.mp hempty] at hlt
  exact absurd hlt (Nat.not_lt_zero _)

end Confirmed

section Notes

variable {H K A F P : Type} [LinearOrder H] [LinearOrder K]
variable {C : NoteCrypto K A F P} {O : HashClass Uint256} {L : Ledger H} {N : Node H}
variable {reorg longest c h : Nat} {chain : List (CBlockIndex H)} {nd nd' : SaplingNoteData K}
variable {op : SaplingOutPoint H} {w : CWallet H K A F}

omit [LinearOrder H] in
omit [LinearOrder K] in
theorem Tracked.congr (ht : Tracked O L reorg longest chain c h nd)
    (hw : nd'.witnesses=nd.witnesses) (hh : nd'.witnessHeight=nd.witnessHeight) :
    Tracked O L reorg longest chain c h nd' := by
  refine ⟨hh.trans ht.height,ht.below,?_,?_,?_,?_⟩
  all_goals rw [hw]
  · exact ht.nonempty
  · exact ht.start
  · exact ht.full
  · exact ht.inStep

/-- What is known of a confirmed note between the calls, if its nullifier is there. -/
def Sound (C : NoteCrypto K A F P) (O : HashClass Uint256) (L : Ledger H) (reorg longest : Nat)
    (chain : List (CBlockIndex H)) (op : SaplingOutPoint H) (c : Nat) (nd : SaplingNoteData K) :
    Prop :=
  ∀nf,nd.nullifier=some nf → L.NullifierOf C op nf ∧
    (nd.witnesses=[] ∨ ∃h,Tracked O L reorg longest chain c h nd)

/-- A note that has its nullifier and its witnesses up to a height from `n` on. -/
def Reached (C : NoteCrypto K A F P) (O : HashClass Uint256) (L : Ledger H) (reorg longest : Nat)
    (chain : List (CBlockIndex H)) (op : SaplingOutPoint H) (c : Nat) (n : Int)
    (nd : SaplingNoteData K) : Prop :=
  ∃nf,∃h : Nat,nd.nullifier=some nf ∧ L.NullifierOf C op nf ∧ n≤h ∧
    Tracked O L reorg longest chain c h nd

/-- A note after its nullifier was computed anew. -/
structure Recomputed (C : NoteCrypto K A F P) (L : Ledger H)
    (e e' : SaplingOutPoint H × SaplingNoteData K) : Prop where
  op : e'.1=e.1
  witnesses : e'.2.witnesses=e.2.witnesses
  height : e'.2.witnessHeight=e.2.witnessHeight
  nullifier : e.2.witnesses≠[] → e'.2.nullifier=e.2.nullifier ∨
    ∃nf,e'.2.nullifier=some nf ∧ L.NullifierOf C e.1 nf
  absent : e.2.witnesses=[] → e'.2.nullifier=none

omit [LinearOrder H] in
theorem updateNullifier_recomputes (w : CWallet H K A F) {tx : H}
    {e : SaplingOutPoint H × SaplingNoteData K} (hop : e.1.hash=tx) :
    Returns (Recomputed C L e) (updateNullifier C L w tx e) := by
  subst hop
  unfold updateNullifier
  cases hw : e.2.witnesses with
  | nil => exact ⟨rfl,rfl,rfl,fun h => absurd hw h,fun _ => rfl⟩
  | cons witness ws =>
    have hne : e.2.witnesses≠[] := by
      rw [hw]
      exact List.cons_ne_nil _ _
    cases hk : w.mapSaplingFullViewingKeys.lookup e.2.ivk with
    | none => exact ⟨rfl,rfl,rfl,fun _ => .inl rfl,fun h => absurd h hne⟩
    | some fvk =>
      cases ho : (L.vShieldedOutput e.1.hash)[e.1.n]? with
      | none => exact Meets.error id
      | some output =>
        cases hn : (output.decrypt C e.2.ivk).bind fun plaintext =>
            C.nullifier plaintext e.2.ivk fvk witness.position with
        | none =>
          simp only [hn]
          exact Meets.error id
        | some nf =>
          simp only [hn]
          obtain ⟨plaintext,hdecrypt,hnf⟩ := Option.bind_eq_some_iff.mp hn
          refine ⟨rfl,rfl,rfl,fun _ => .inr ⟨nf,rfl,?_⟩,fun h => absurd h hne⟩
          exact ⟨output,e.2.ivk,plaintext,fvk,witness.position,ho,hdecrypt,hnf⟩

omit [LinearOrder H] in
theorem updateTx_recomputes (w : CWallet H K A F) {wtx : CWalletTx H K}
    (howned : ∀e∈wtx.mapSaplingNoteData,Owned L wtx.hash e.1) :
    Returns (fun wtx' => (wtx'.hash=wtx.hash ∧ wtx'.hashBlock=wtx.hashBlock ∧
        wtx'.nIndex=wtx.nIndex) ∧
        List.Forall₂ (Recomputed C L) wtx.mapSaplingNoteData wtx'.mapSaplingNoteData)
      (updateSaplingNullifierNoteMapWithTx C L w wtx) := by
  refine Meets.bind (Meets.mapM fun e he => updateNullifier_recomputes w (howned e he).1)
    fun notes hnotes => ?_
  exact ⟨⟨rfl,rfl,rfl⟩,hnotes⟩

omit [LinearOrder H] in
omit [LinearOrder K] in
theorem Reached.recomputed {n : Int} {e e' : SaplingOutPoint H × SaplingNoteData K}
    (hr : Reached C O L reorg longest chain op c n e.2) (hop : e.1=op)
    (h : Recomputed C L e e') : Reached C O L reorg longest chain op c n e'.2 := by
  obtain ⟨nf,height,hnf,hof,hn,ht⟩ := hr
  have ht' := ht.congr h.witnesses h.height
  rcases h.nullifier ht.nonempty with hsame | ⟨nf',hnf',hof'⟩
  · exact ⟨nf,height,hsame.trans hnf,hof,hn,ht'⟩
  · exact ⟨nf',height,hnf',hop ▸ hof',hn,ht'⟩

/-- A note that the loop has yet to come to. -/
def Pending (C : NoteCrypto K A F P) (O : HashClass Uint256) (L : Ledger H) (reorg longest : Nat)
    (chain : List (CBlockIndex H)) (op : SaplingOutPoint H) (c k : Nat) (nd : SaplingNoteData K) :
    Prop :=
  Sound C O L reorg longest chain op c nd ∧ (nd.nullifier=none → 0<k → nd.witnesses=[])

omit [LinearOrder H] in
omit [LinearOrder K] in
theorem Pending.recomputed {k : Nat} {e e' : SaplingOutPoint H × SaplingNoteData K}
    (hp : Pending C O L reorg longest chain op c k e.2) (hk : 0<k) (hop : e.1=op)
    (h : Recomputed C L e e') : Pending C O L reorg longest chain op c k e'.2 := by
  obtain ⟨hsound,hnone⟩ := hp
  by_cases hw : e.2.witnesses=[]
  · refine ⟨fun nf hnf => ?_,fun _ _ => h.witnesses.trans hw⟩
    rw [h.absent hw] at hnf
    cases hnf
  · obtain ⟨nf,hnf⟩ := Option.ne_none_iff_exists'.mp fun hnull => hw (hnone hnull hk)
    obtain ⟨hof,htracked⟩ := hsound nf hnf
    obtain ⟨height,ht⟩ := htracked.resolve_left hw
    have ht' := ht.congr h.witnesses h.height
    rcases h.nullifier hw with hsame | ⟨nf',hnf',hof'⟩
    · refine ⟨fun nf₁ h₁ => ?_,fun hnull => ?_⟩
      · rw [hsame] at h₁
        exact ⟨(hsound nf₁ h₁).1,.inr ⟨height,ht'⟩⟩
      · rw [hsame,hnf] at hnull
        cases hnull
    · refine ⟨fun nf₁ h₁ => ?_,fun hnull => ?_⟩
      · obtain rfl := Option.some.inj (hnf'.symm.trans h₁)
        exact ⟨hop ▸ hof',.inr ⟨height,ht'⟩⟩
      · rw [hnf'] at hnull
        cases hnull

omit [LinearOrder H] [LinearOrder K] in
theorem saplingWitnessMinimumHeight_spec (N : Node H) (nf : Uint256) {nWitnessHeight m : Int}
    (hw : 0≤nWitnessHeight) (hm : 0 ≤ m) :
    (0 ≤ saplingWitnessMinimumHeight N nf nWitnessHeight m ∧
      saplingWitnessMinimumHeight N nf nWitnessHeight m ≤ m) ∧
      (N.getSaplingSpendDepth nf≤N.WITNESS_CACHE_SIZE →
        saplingWitnessMinimumHeight N nf nWitnessHeight m≤nWitnessHeight) := by
  unfold saplingWitnessMinimumHeight
  split_ifs with hdepth
  · exact ⟨⟨le_min hw hm,min_le_right _ _⟩,fun _ => min_le_left _ _⟩
  · exact ⟨⟨hm,le_rfl⟩,fun h => absurd h hdepth⟩

theorem returns_any {V : Type} (x : Except Fault V) : Returns (fun _ => True) x := by
  cases x with
  | error f => exact Meets.error id
  | ok v => trivial

theorem deref_returns {V : Type} (o : Option V) : Returns (fun v => o=some v) (deref o) := by
  cases o with
  | none => exact Meets.error id
  | some v => rfl

omit [LinearOrder K] in
theorem setInitialWitness_height (op : SaplingOutPoint H) (c : Nat) (nd : SaplingNoteData K) :
    Returns (fun nd' => nd'.witnessHeight=(c : Int)) (setInitialWitness O L N op c nd) := by
  unfold setInitialWitness
  refine (returns_any _).bind fun b _ => ?_
  refine (returns_any _).bind fun pprev _ => ?_
  dsimp only
  split_ifs
  · exact (returns_any _).bind fun s _ => rfl
  · exact Meets.error id

/-- What the tests on a cached witness leave of the note and the minimum height. -/
structure Passed (N : Node H) (witnessOnly : Bool) (nd : SaplingNoteData K) (m : Int)
    (p : SaplingNoteData K × Int) : Prop where
  nonempty : nd.witnesses≠[]
  witnesses : p.1.witnesses=nd.witnesses
  height : p.1.witnessHeight=nd.witnessHeight
  nullifier : p.1.nullifier=nd.nullifier
  least : 0≤p.2 ∧ p.2 ≤ m
  minimum : witnessOnly=false → ∀nf,nd.nullifier=some nf →
    N.getSaplingSpendDepth nf≤N.WITNESS_CACHE_SIZE → p.2≤nd.witnessHeight

omit [LinearOrder H] [LinearOrder K] in
theorem checkWitness_passed (height : Int) (witnessOnly : Bool) (nd : SaplingNoteData K) {m : Int}
    (hm : 0 ≤ m) : Returns (fun r => ∀p∈r,Passed N witnessOnly nd m p)
      (checkWitness O N height witnessOnly nd m) := by
  by_cases h : nd.witnesses≠[] ∧ 0<nd.witnessHeight
  · have hkeep : ∀nf,nd.nullifier=some nf → ∀nd',nd'.witnesses=nd.witnesses →
        nd'.witnessHeight=nd.witnessHeight → nd'.nullifier=nd.nullifier →
        ∀p∈some (nd',saplingWitnessMinimumHeight N nf nd.witnessHeight m),
          Passed N witnessOnly nd m p := by
      intro nf hnf nd' hw hh hn p hp
      obtain rfl := Option.some.inj hp
      obtain ⟨hleast,hminimum⟩ := saplingWitnessMinimumHeight_spec N nf h.2.le hm
      refine ⟨h.1,hw,hh,hn,hleast,fun _ nf' hnf' hdepth => ?_⟩
      obtain rfl := Option.some.inj (hnf.symm.trans hnf')
      exact hminimum hdepth
    rw [checkWitness,if_pos h]
    split_ifs with hboth
    · intro p hp
      obtain rfl := Option.some.inj hp
      refine ⟨h.1,rfl,rfl,rfl,⟨hm,le_rfl⟩,fun hfull => ?_⟩
      rw [hfull,Bool.and_false] at hboth
      cases hboth
    · exact (deref_returns _).bind fun nf hnf => hkeep nf hnf nd rfl rfl rfl
    · exact (deref_returns _).bind fun nf hnf => hkeep nf hnf nd rfl rfl rfl
    · refine (returns_any _).bind fun witness _ => ?_
      refine (returns_any _).bind fun b _ => ?_
      split_ifs
      · exact (deref_returns _).bind fun nf hnf => hkeep nf hnf _ rfl rfl rfl
      · exact fun p hp => by cases hp
  · rw [checkWitness,if_neg h]
    exact fun p hp => by cases hp

omit [LinearOrder H] [LinearOrder K] in
theorem Reached.mono {n n' : Int} (hr : Reached C O L reorg longest chain op c n nd) (h : n'≤n) :
    Reached C O L reorg longest chain op c n' nd := by
  obtain ⟨nf,height,hnf,hof,hn,ht⟩ := hr
  exact ⟨nf,height,hnf,hof,h.trans hn,ht⟩

/-- The height that the witnesses are known to have when the minimum height is `m`. -/
def floor (witnessOnly : Bool) (m : Int) : Int := if witnessOnly then 0 else m

theorem floor_mono {witnessOnly : Bool} {m m' : Int} (h : m ≤ m') :
    floor witnessOnly m≤floor witnessOnly m' := by
  unfold floor
  split_ifs
  · exact le_rfl
  · exact h

/-- The loop over the notes of a transaction that is confirmed at `c`, before its `j`-th note. -/
structure Stage (C : NoteCrypto K A F P) (O : HashClass Uint256) (L : Ledger H) (N : Node H)
    (reorg longest : Nat) (chain : List (CBlockIndex H)) (op : SaplingOutPoint H)
    (witnessOnly : Bool) (c : Nat) (m : Int) (j : Nat) (s : CWalletTx H K × Int) : Prop where
  height : N.heightOf L s.1=some c
  owned : ∀e∈s.1.mapSaplingNoteData,Owned L s.1.hash e.1
  least : 0 ≤ s.2 ∧ s.2 ≤ m
  done : c<chain.length → ∀k<j,∀e,s.1.mapSaplingNoteData[k]?=some e → e.1=op →
    Reached C O L reorg longest chain op c (floor witnessOnly s.2) e.2
  pending : c<chain.length → ∀k,j≤k → ∀e,s.1.mapSaplingNoteData[k]?=some e → e.1=op →
    Pending C O L reorg longest chain op c k e.2

section Stage

variable {witnessOnly : Bool} {m m' : Int} {j : Nat} {s : CWalletTx H K × Int}
variable {op' : SaplingOutPoint H} {found : SaplingNoteData K}

omit [LinearOrder K] in
theorem Stage.set (hs : Stage C O L N reorg longest chain op witnessOnly c m j s)
    (hj : s.1.mapSaplingNoteData[j]?=some (op',found)) (hm : 0 ≤ m' ∧ m' ≤ s.2)
    (hdone : c<chain.length → op'=op →
      Reached C O L reorg longest chain op c (floor witnessOnly m') nd) :
    Stage C O L N reorg longest chain op witnessOnly c m (j+1) (s.1.setNote j (op',nd),m') := by
  have hlt := (List.getElem?_eq_some_iff.mp hj).1
  refine ⟨hs.height,fun e he => ?_,⟨hm.1,hm.2.trans hs.least.2⟩,?_,?_⟩
  · rcases List.mem_or_eq_of_mem_set he with he | rfl
    · exact hs.owned e he
    · exact hs.owned (op',found) (List.mem_of_getElem? hj)
  · intro hc k hk e he hop
    dsimp only [CWalletTx.setNote] at he
    by_cases hkj : k=j
    · subst hkj
      rw [List.getElem?_set_self hlt] at he
      obtain rfl := Option.some.inj he
      exact hdone hc hop
    · rw [List.getElem?_set_ne (Ne.symm hkj)] at he
      exact (hs.done hc k (by omega) e he hop).mono (floor_mono hm.2)
  · intro hc k hk e he hop
    dsimp only [CWalletTx.setNote] at he
    rw [List.getElem?_set_ne (by omega)] at he
    exact hs.pending hc k (by omega) e he hop

omit [LinearOrder K] in
/-- A witness is set anew and then the nullifiers of all notes of the transaction. -/
theorem Stage.rebuild (hs : Stage C O L N reorg longest chain op witnessOnly c m j s)
    (hj : s.1.mapSaplingNoteData[j]?=some (op',found)) (hnull : nd.nullifier=found.nullifier)
    (htracked : c<chain.length → Tracked O L reorg longest chain c c nd)
    {wtx : CWalletTx H K} (hsame : wtx.hash=s.1.hash ∧ wtx.hashBlock=s.1.hashBlock ∧
      wtx.nIndex=s.1.nIndex)
    (hnotes : List.Forall₂ (Recomputed C L) (s.1.setNote j (op',nd)).mapSaplingNoteData
      wtx.mapSaplingNoteData) {nf : Uint256}
    (hnf : ((wtx.mapSaplingNoteData[j]?).bind fun e => e.2.nullifier)=some nf)
    (hm : 0 ≤ m' ∧ m' ≤ s.2)
    (hfloor : L.NullifierOf C op nf → m' ≤ c) :
    Stage C O L N reorg longest chain op witnessOnly c m (j+1) (wtx,m') := by
  have hlt := (List.getElem?_eq_some_iff.mp hj).1
  have hback : ∀k e',wtx.mapSaplingNoteData[k]?=some e' → ∃e,Recomputed C L e e' ∧
      ((k=j ∧ e=(op',nd)) ∨ (k≠j ∧ s.1.mapSaplingNoteData[k]?=some e)) := by
    intro k e' he'
    obtain ⟨e,he,hr⟩ := forall₂_getElem? hnotes he'
    refine ⟨e,hr,?_⟩
    dsimp only [CWalletTx.setNote] at he
    by_cases hkj : k=j
    · subst hkj
      rw [List.getElem?_set_self hlt] at he
      exact .inl ⟨rfl,(Option.some.inj he).symm⟩
    · rw [List.getElem?_set_ne (Ne.symm hkj)] at he
      exact .inr ⟨hkj,he⟩
  refine ⟨?_,fun e' he' => ?_,⟨hm.1,hm.2.trans hs.least.2⟩,?_,?_⟩
  · rw [N.heightOf_eq,confirmedIn_congr hsame,← N.heightOf_eq]
    exact hs.height
  · obtain ⟨k,hk⟩ := List.mem_iff_getElem?.mp he'
    obtain ⟨e,hr,⟨-,rfl⟩ | ⟨-,he⟩⟩ := hback k e' hk
    · rw [hr.op,hsame.1]
      exact hs.owned (op',found) (List.mem_of_getElem? hj)
    · rw [hr.op,hsame.1]
      exact hs.owned e (List.mem_of_getElem? he)
  · intro hc k hk e' he' hop
    obtain ⟨e,hr,⟨rfl,rfl⟩ | ⟨hkj,he⟩⟩ := hback k e' he'
    · have hop' : op'=op := hr.op.symm.trans hop
      have ht := htracked hc
      rw [he',Option.bind_some] at hnf
      have hof : L.NullifierOf C op nf := by
        rcases hr.nullifier ht.nonempty with hsame | ⟨nf',hnf',hof'⟩
        · have hfound : found.nullifier=some nf := by
            rw [← hnull,← hnf,hsame]
          exact ((hs.pending hc k le_rfl _ hj hop').1 nf hfound).1
        · obtain rfl := Option.some.inj (hnf.symm.trans hnf')
          exact hop' ▸ hof'
      refine ⟨nf,c,hnf,hof,?_,ht.congr hr.witnesses hr.height⟩
      unfold floor
      split_ifs
      · exact Int.natCast_nonneg c
      · exact hfloor hof
    · have hdone := hs.done hc k (by omega) e he (hr.op.symm.trans hop)
      exact (hdone.recomputed (hr.op.symm.trans hop) hr).mono (floor_mono hm.2)
  · intro hc k hk e' he' hop
    obtain ⟨e,hr,⟨rfl,-⟩ | ⟨-,he⟩⟩ := hback k e' he'
    · omega
    · have hpending := hs.pending hc k (by omega) e he (hr.op.symm.trans hop)
      exact hpending.recomputed (by omega) (hr.op.symm.trans hop) hr

end Stage

section Loops

variable {witnessOnly : Bool} {m : Int}

theorem verifyNote_length (height : Int) (witnessOnly : Bool) (c : Nat)
    (s : CWalletTx H K × Int) (j : Nat) :
    Returns (fun s' => s'.1.mapSaplingNoteData.length=s.1.mapSaplingNoteData.length)
      (verifyNote C O L N w height witnessOnly c s j) := by
  unfold verifyNote
  cases hj : s.1.mapSaplingNoteData[j]? with
  | none => rfl
  | some e =>
    have hset : ∀nd : SaplingNoteData K,
        (s.1.setNote j (e.1,nd)).mapSaplingNoteData.length=s.1.mapSaplingNoteData.length :=
      fun nd => List.length_set
    refine (returns_any _).bind fun r _ => ?_
    cases r with
    | some p => exact hset p.1
    | none =>
      refine (returns_any _).bind fun nd _ => ?_
      refine (updateTx_spec w _).returns.bind fun wtx hwtx => ?_
      refine (returns_any _).bind fun nf _ => ?_
      exact hwtx.2.length_eq.symm.trans (hset nd)

theorem verifyNote_stage (hO : O.Lawful) (hchain : ValidChain O L chain)
    (hN : N.Serves O L chain) (hrecent : N.Recent C L op) (height : Int) {j : Nat}
    {s : CWalletTx H K × Int}
    (hs : Stage C O L N reorg longest chain op witnessOnly c m j s) :
    Returns (Stage C O L N reorg longest chain op witnessOnly c m (j+1))
      (verifyNote C O L N w height witnessOnly c s j) := by
  unfold verifyNote
  cases hj : s.1.mapSaplingNoteData[j]? with
  | none =>
    refine ⟨hs.height,hs.owned,hs.least,fun hc k hk e he => ?_,fun hc k hk e he => ?_⟩
    · have hlen := List.getElem?_eq_none_iff.mp hj
      have hlt := (List.getElem?_eq_some_iff.mp he).1
      exact hs.done hc k (by omega) e he
    · exact hs.pending hc k (by omega) e he
  | some e =>
    obtain ⟨op',found⟩ := e
    have hown : Owned L s.1.hash op' := hs.owned (op',found) (List.mem_of_getElem? hj)
    obtain ⟨nd,hnd,hnull,hkept⟩ : ∃nd,
        (if found.nullifier.isNone then found.clear else found)=nd ∧
          nd.nullifier=found.nullifier ∧ (nd.witnesses≠[] → nd=found ∧ found.nullifier≠none) := by
      refine ⟨_,rfl,?_⟩
      cases hnull : found.nullifier with
      | none => exact ⟨hnull,fun h => absurd rfl h⟩
      | some nullifier => exact ⟨hnull,fun _ => ⟨rfl,Option.some_ne_none _⟩⟩
    dsimp only
    rw [hnd]
    refine (checkWitness_passed height witnessOnly nd hs.least.1).bind fun r hr => ?_
    cases r with
    | some p =>
      have hp := hr p rfl
      refine hs.set hj hp.least fun hc hop => ?_
      obtain ⟨rfl,hne⟩ := hkept hp.nonempty
      obtain ⟨nf,hnf⟩ := Option.ne_none_iff_exists'.mp hne
      obtain ⟨hof,htracked⟩ := (hs.pending hc j le_rfl _ hj hop).1 nf hnf
      obtain ⟨h,ht⟩ := htracked.resolve_left hp.nonempty
      refine ⟨nf,h,hp.nullifier.trans hnf,hof,?_,ht.congr hp.witnesses hp.height⟩
      unfold floor
      split_ifs with hfull
      · exact Int.natCast_nonneg h
      · rw [← ht.height]
        exact hp.minimum (Bool.eq_false_of_not_eq_true hfull) nf hnf (hrecent nf hof)
    | none =>
      obtain ⟨b,hb,htx⟩ := Node.heightOf_spec hs.height
      have hset := setInitialWitness_spec (O := O) hb htx hown nd
      have htracked : Returns (fun nd' => c<chain.length → nd'.witnesses≠[] →
          Tracked O L reorg longest chain c c nd') (setInitialWitness O L N op' c nd) := by
        by_cases hc : c<chain.length
        · have hconf := hN.heightOf_iff.mp ⟨hs.height,hc⟩
          refine (setInitialWitness_tracked hO hchain hN op' (List.getElem?_eq_getElem hc)
            (confirmedIn_pos hchain hconf hown) nd).post fun nd' h _ => h
        · exact (returns_any _).post fun nd' _ hcon => absurd hcon hc
      refine ((hset.both (setInitialWitness_height op' c nd)).both htracked).bind fun nd' hnd' => ?_
      obtain ⟨⟨⟨-,hn,hws⟩,hheight⟩,ht⟩ := hnd'
      have hown' : ∀e∈(s.1.setNote j (op',nd')).mapSaplingNoteData,
          Owned L (s.1.setNote j (op',nd')).hash e.1 := by
        intro e he
        rcases List.mem_or_eq_of_mem_set he with he | rfl
        · exact hs.owned e he
        · exact hown
      refine (updateTx_recomputes w hown').bind fun wtx hwtx => ?_
      refine (deref_returns _).bind fun nf hnf => ?_
      obtain ⟨hm,hminimum⟩ := saplingWitnessMinimumHeight_spec N nf
        (by rw [hheight]; exact Int.natCast_nonneg c : 0≤nd'.witnessHeight) hs.least.1
      refine hs.rebuild hj (hn.trans hnull) (fun hc => ht hc hws) hwtx.1 hwtx.2 hnf hm ?_
      intro hof
      rw [← hheight]
      exact hminimum (hrecent nf hof)

/-- What the build finds of a transaction of the wallet. -/
structure Found (C : NoteCrypto K A F P) (O : HashClass Uint256) (L : Ledger H)
    (reorg longest : Nat) (chain : List (CBlockIndex H)) (op : SaplingOutPoint H)
    (wtx : CWalletTx H K) : Prop where
  owned : ∀e∈wtx.mapSaplingNoteData,Owned L wtx.hash e.1
  pending : ∀c,wtx.confirmedIn L chain=some c → ∀k e,wtx.mapSaplingNoteData[k]?=some e →
    e.1=op → Pending C O L reorg longest chain op c k e.2

/-- The note has witnesses up to a height from `n` on, if it is confirmed. -/
def Built (C : NoteCrypto K A F P) (O : HashClass Uint256) (L : Ledger H) (reorg longest : Nat)
    (chain : List (CBlockIndex H)) (op : SaplingOutPoint H) (n : Int) (wtx : CWalletTx H K) :
    Prop :=
  ∀c,wtx.confirmedIn L chain=some c → ∀e∈wtx.mapSaplingNoteData,e.1=op →
    Reached C O L reorg longest chain op c n e.2

theorem verifyTx_built (hO : O.Lawful) (hchain : ValidChain O L chain) (hN : N.Serves O L chain)
    (hrecent : N.Recent C L op) (height : Int) {wtx : CWalletTx H K}
    (hfound : Found C O L reorg longest chain op wtx) (hm : 0 ≤ m) :
    Returns (fun s => (0 ≤ s.2 ∧ s.2 ≤ m) ∧
        Built C O L reorg longest chain op (floor witnessOnly s.2) s.1)
      (verifyTx C O L N w height witnessOnly wtx m) := by
  unfold verifyTx
  cases hh : N.heightOf L wtx with
  | none =>
    refine ⟨⟨hm,le_rfl⟩,fun c hc => ?_⟩
    rw [(hN.heightOf_iff.mpr hc).1] at hh
    cases hh
  | some c =>
    have hstart : Stage C O L N reorg longest chain op witnessOnly c m 0 (wtx,m) := by
      refine ⟨hh,hfound.owned,⟨hm,le_rfl⟩,fun _ k hk => absurd hk (Nat.not_lt_zero k),?_⟩
      intro hc k _ e he hop
      exact hfound.pending c (hN.heightOf_iff.mp ⟨hh,hc⟩) k e he hop
    have hloop := Meets.foldlM_range (B := fun _ => False)
      (n := wtx.mapSaplingNoteData.length) hstart
      fun j _ s hs => verifyNote_stage (w := w) hO hchain hN hrecent height hs
    have hlength : Returns (fun s => s.1.mapSaplingNoteData.length=wtx.mapSaplingNoteData.length)
        ((List.range wtx.mapSaplingNoteData.length).foldlM
          (verifyNote C O L N w height witnessOnly c) (wtx,m)) := by
      refine Meets.foldlM_keeps rfl fun j _ s hs => ?_
      exact (verifyNote_length height witnessOnly c s j).post fun s' hs' => hs'.trans hs
    refine (hloop.both hlength).post fun s hs => ⟨hs.1.least,fun d hd e he hop => ?_⟩
    obtain ⟨hheight,hlt⟩ := hN.heightOf_iff.mpr hd
    obtain rfl := Option.some.inj (hs.1.height.symm.trans hheight)
    obtain ⟨k,hk⟩ := List.mem_iff_getElem?.mp he
    have hkl := (List.getElem?_eq_some_iff.mp hk).1
    exact hs.1.done hlt k (hs.2 ▸ hkl) e hk hop

omit [LinearOrder K] in
theorem Built.mono {n n' : Int} {wtx : CWalletTx H K}
    (hb : Built C O L reorg longest chain op n wtx) (h : n'≤n) :
    Built C O L reorg longest chain op n' wtx :=
  fun c hc e he hop => (hb c hc e he hop).mono h

theorem verifyLoop_built (hO : O.Lawful) (hchain : ValidChain O L chain) (hN : N.Serves O L chain)
    (hrecent : N.Recent C L op) (height : Int) {l : List (H × CWalletTx H K)}
    (hfound : ∀p∈l,Found C O L reorg longest chain op p.2) (hm : 0 ≤ m) :
    Returns (fun s => (0 ≤ s.2 ∧ s.2 ≤ m) ∧
        ∀p∈s.1,Built C O L reorg longest chain op (floor witnessOnly s.2) p.2)
      (verifyLoop C O L N w height witnessOnly l m) := by
  induction l generalizing m with
  | nil => exact ⟨⟨hm,le_rfl⟩,fun p hp => absurd hp List.not_mem_nil⟩
  | cons p l ih =>
    obtain ⟨k,wtx⟩ := p
    rw [verifyLoop]
    refine (verifyTx_built hO hchain hN hrecent height (hfound _ List.mem_cons_self) hm).bind
      fun s hs => ?_
    refine (ih (fun p hp => hfound p (List.mem_cons_of_mem _ hp)) hs.1.1).bind fun s' hs' => ?_
    refine ⟨⟨hs'.1.1,hs'.1.2.trans hs.1.2⟩,fun p hp => ?_⟩
    rcases List.mem_cons.mp hp with rfl | hp
    · exact hs.2.mono (floor_mono hs'.1.2)
    · exact hs'.2 p hp

omit [LinearOrder K] in
theorem extendTx_built (hO : O.Lawful) (hchain : ValidChain O L chain) (hN : N.Serves O L chain)
    (hreorg : N.MAX_REORG_LENGTH=reorg) (hlong : chain.length≤longest)
    (hrecent : N.Recent C L op) {n : Nat} {b : CBlockIndex H} (hb : chain[n]?=some b)
    {wtx : CWalletTx H K}
    (hbuilt : Built C O L reorg longest chain op ((n : Int)-1) wtx) :
    Returns (Built C O L reorg longest chain op n) (extendTx O L N b.hash n wtx) := by
  unfold extendTx
  split_ifs with hh
  · refine Meets.bind (Meets.mapM (R := fun e e' => e'.1=e.1 ∧ ∀c,
      wtx.confirmedIn L chain=some c → e.1=op →
        Reached C O L reorg longest chain op c n e'.2) fun e he => ?_) fun notes hnotes => ?_
    · by_cases hc : ∃c,wtx.confirmedIn L chain=some c ∧ e.1=op
      · obtain ⟨c,hc,hop⟩ := hc
        obtain ⟨nf,h,hnf,hof,hn,ht⟩ := hbuilt c hc e he hop
        refine (extendNote_tracked hO hchain hreorg hlong hb hnf (hrecent nf hof) ht
          (by omega)).bind fun nd hnd => ⟨rfl,fun d hd _ => ?_⟩
        obtain rfl := Option.some.inj (hc.symm.trans hd)
        obtain ⟨hsame,h',hle,ht'⟩ := hnd
        exact ⟨nf,h',hsame.trans hnf,hof,Int.ofNat_le.mpr hle,ht'⟩
      · refine (returns_any _).bind fun nd _ => ⟨rfl,fun c h hop => ?_⟩
        exact absurd ⟨c,h,hop⟩ hc
    · intro c hc e' he' hop
      obtain ⟨e,-,hsame,hr⟩ := forall₂_mem hnotes he'
      exact hr c hc (hsame.symm.trans hop)
  · intro c hc
    rw [(hN.heightOf_iff.mpr hc).1] at hh
    exact absurd rfl hh

omit [LinearOrder K] in
theorem extendAll_built (hO : O.Lawful) (hchain : ValidChain O L chain) (hN : N.Serves O L chain)
    (hreorg : N.MAX_REORG_LENGTH=reorg) (hlong : chain.length≤longest)
    (hrecent : N.Recent C L op) {n : Nat} {b : CBlockIndex H} (hb : chain[n]?=some b)
    {l : List (H × CWalletTx H K)}
    (hbuilt : ∀p∈l,Built C O L reorg longest chain op ((n : Int)-1) p.2) :
    Returns (fun l' => ∀p∈l',Built C O L reorg longest chain op n p.2)
      (l.mapM fun e => do
        let wtx ← extendTx O L N b.hash n e.2
        return (e.1,wtx)) := by
  refine Meets.mapM_all fun p hp => ?_
  exact (extendTx_built hO hchain hN hreorg hlong hrecent hb (hbuilt p hp)).bind
    fun wtx hwtx => hwtx

omit [LinearOrder K] in
/-- The block loop takes the notes up to its last block. -/
theorem buildLoop_built (hO : O.Lawful) {b : CBlockIndex H} (hchain : ValidChain O L (chain++[b]))
    (hN : N.Serves O L (chain++[b])) (hreorg : N.MAX_REORG_LENGTH=reorg)
    (hlong : (chain++[b]).length≤longest) (hrecent : N.Recent C L op) {n : Nat}
    (hn : n ≤ chain.length) {l : List (H × CWalletTx H K)}
    (hbuilt : ∀p∈l,Built C O L reorg longest (chain++[b]) op ((n : Int)-1) p.2) :
    Returns (fun l' => ∀p∈l',Built C O L reorg longest (chain++[b]) op chain.length p.2)
      (buildLoop O L N b.hash (N.chainActive.drop n) n l) := by
  obtain ⟨rest,hrest⟩ := hN.active
  induction hk : chain.length-n generalizing n l with
  | zero =>
    obtain rfl : n=chain.length := by omega
    have hb : (chain++[b])[chain.length]?=some b := by simp
    have hdrop : N.chainActive.drop chain.length=b::rest := by
      rw [← hrest,List.append_assoc,List.drop_left]
      rfl
    rw [hdrop,buildLoop,hN.uninterrupted b (by simp),if_neg Bool.false_ne_true]
    by_cases hzero : chain.length=0
    · rw [if_pos hzero]
      exact Meets.error id
    · rw [if_neg hzero]
      by_cases hread : N.readable b.hash
      · rw [if_pos hread]
        refine (extendAll_built hO hchain hN hreorg hlong hrecent hb hbuilt).bind fun l' hl' => ?_
        rw [if_pos rfl]
        exact hl'
      · rw [if_neg hread]
        exact Meets.error id
  | succ k ih =>
    have hlt : n<chain.length := by omega
    have hb : (chain++[b])[n]?=some chain[n] := by
      rw [List.getElem?_append_left hlt,List.getElem?_eq_getElem hlt]
    have hdrop : N.chainActive.drop n=chain[n]::N.chainActive.drop (n+1) := by
      obtain ⟨hlt',hget⟩ := List.getElem?_eq_some_iff.mp (hN.getElem? hb)
      rw [List.drop_eq_getElem_cons hlt',hget]
    have hne : chain[n].hash≠b.hash := by
      have hpair := (List.pairwise_append.mp hchain.hashes).2.2
      exact hpair _ (List.getElem_mem hlt) b List.mem_cons_self
    rw [hdrop,buildLoop,hN.uninterrupted _ (List.mem_of_getElem? hb),if_neg Bool.false_ne_true]
    split_ifs
    · exact Meets.error id
    · refine (extendAll_built hO hchain hN hreorg hlong hrecent hb hbuilt).bind fun l' hl' =>
        ih (by omega) (fun p hp => ?_) (by omega)
      have hcast : ((n+1 : Nat) : Int)-1=n := by omega
      rw [hcast]
      exact hl' p hp
    · exact Meets.error id

theorem buildWitnessCache_built (hO : O.Lawful) (witnessOnly : Bool) {b : CBlockIndex H}
    (hchain : ValidChain O L (chain++[b])) (hN : N.Serves O L (chain++[b]))
    (hreorg : N.MAX_REORG_LENGTH=reorg) (hlong : (chain++[b]).length≤longest)
    (hrecent : N.Recent C L op)
    (hfound : ∀p∈w.mapWallet,Found C O L reorg longest (chain++[b]) op p.2) :
    Returns (fun w' => ∀p∈w'.mapWallet,Built C O L reorg longest (chain++[b]) op
        (floor witnessOnly chain.length) p.2)
      (buildWitnessCache C O L N b.hash chain.length witnessOnly w) := by
  have hheight : (0 : Int) ≤ chain.length := Int.natCast_nonneg _
  unfold buildWitnessCache verifyAndSetInitialWitness
  rw [bind_assoc]
  refine (verifyLoop_built hO hchain hN hrecent chain.length hfound hheight).bind fun s hs => ?_
  obtain ⟨⟨hnonneg,hle⟩,hbuilt⟩ := hs
  rw [pure_bind]
  dsimp only
  cases witnessOnly with
  | true =>
    rw [if_pos (by simp)]
    exact hbuilt
  | false =>
    have hfloor : floor false s.2=s.2 := rfl
    rw [hfloor] at hbuilt
    split_ifs with hstop
    · have hat : s.2=chain.length := by
        simp only [Bool.or_false,Bool.or_eq_true,decide_eq_true_eq] at hstop
        omega
      rw [hat] at hbuilt
      exact hbuilt
    · have hcast : (((s.2+1).toNat : Nat) : Int)-1=s.2 := by omega
      refine (buildLoop_built hO hchain hN hreorg hlong hrecent ?_ fun p hp => ?_).bind
        fun l hl => hl
      · simp only [Bool.or_false,Bool.or_eq_true,decide_eq_true_eq] at hstop
        omega
      · rw [hcast]
        exact hbuilt p hp

end Loops

end Notes

end Zdeex.Wallet.WitnessCache
