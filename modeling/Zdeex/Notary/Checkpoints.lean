import Zdeex.Notary.Replay
import Zdeex.Framework.Run

namespace Zdeex.Notary

open Zdeex.Framework

section Lookup

variable (nHeight : Int32)

/-- Both loops of `hush_notarizeddata`, from index `i` on: `np`, `last_NPOINTSi`
and whether a point at or above the height ended the loop. -/
def scanPoints : List NotarizedCheckpoint → Nat → Option NotarizedCheckpoint → Nat →
    Option NotarizedCheckpoint × Nat × Bool
  | [],_,np,last => (np,last,false)
  | pt::pts,i,np,last =>
      if pt.nHeight.toInt≥nHeight.toInt then (np,last,true)
      else scanPoints pts (i+1) (some pt) i

/-- The first branch, which starts at the remembered index. -/
def scanCached (NPOINTS : List NotarizedCheckpoint) (last : Nat) :
    Option NotarizedCheckpoint × Nat × Bool :=
  if last<NPOINTS.length ∧ 0<last then
    match NPOINTS[last-1]? with
    | none => (none,last,false)
    | some np =>
        if np.nHeight.toInt<nHeight.toInt then
          scanPoints nHeight (NPOINTS.drop last) last (some np) last
        else (some np,last,false)
  else (none,last,false)

/-- The point found and the new `last_NPOINTSi`. -/
def notarizedPoint (NPOINTS : List NotarizedCheckpoint) (last : Nat) :
    Option NotarizedCheckpoint × Nat :=
  if NPOINTS=[] then (none,last)
  else
    let (np,last,flag) := scanCached nHeight NPOINTS last
    if flag then (np,last)
    else
      let (np,last,_) := scanPoints nHeight NPOINTS 0 none last
      (np,last)

/-- Hash, transaction id and height of the answer. -/
def notarizedAnswer : Option NotarizedCheckpoint → Uint256 × Uint256 × Int32
  | none => (0,0,0)
  | some np => (np.notarized_hash,np.notarized_desttxid,np.notarized_height)

def hushNotarizeddata (NPOINTS : List NotarizedCheckpoint) (last : Nat) :
    (Uint256 × Uint256 × Int32) × Nat :=
  let (np,last) := notarizedPoint nHeight NPOINTS last
  (notarizedAnswer np,last)

/-- The last entry of the longest run of points below the height. -/
def pointBelow (NPOINTS : List NotarizedCheckpoint) : Option NotarizedCheckpoint :=
  (NPOINTS.takeWhile fun np => np.nHeight.toInt<nHeight.toInt).getLast?

end Lookup

/-- The test on one point of `hush_npptr_for_height`. -/
def coversHeight (height : Int32) (np : NotarizedCheckpoint) : Bool :=
  np.MoMdepth≠0 && (np.notarized_height-(np.MoMdepth &&& 0xffff)).toInt<height.toInt &&
    height.toInt≤np.notarized_height.toInt

/-- The newest point that covers the height. -/
def hushNpptrForHeight (NPOINTS : List NotarizedCheckpoint) (height : Int32) :
    Option NotarizedCheckpoint :=
  NPOINTS.reverse.find? (coversHeight height)

section Scan

variable {nHeight : Int32} {NPOINTS : List NotarizedCheckpoint}

theorem scanPoints_fst (pts : List NotarizedCheckpoint) (i : Nat)
    (np : Option NotarizedCheckpoint) (last : Nat) :
    (scanPoints nHeight pts i np last).1=(pointBelow nHeight pts).or np := by
  induction pts generalizing i np last with
  | nil => rfl
  | cons pt pts ih =>
    by_cases hge : pt.nHeight.toInt≥nHeight.toInt
    · have hnot : ¬pt.nHeight.toInt<nHeight.toInt := by omega
      simp [scanPoints,if_pos hge,pointBelow,hnot]
    · have hlt : pt.nHeight.toInt<nHeight.toInt := by omega
      rw [scanPoints,if_neg hge,ih]
      simp only [pointBelow,List.takeWhile_cons,decide_eq_true hlt,if_true,
        List.getLast?_cons]
      cases (pts.takeWhile fun np => np.nHeight.toInt<nHeight.toInt).getLast? with
      | none => rfl
      | some np => rfl

/-- Points below the height in front do not change what comes last. -/
theorem pointBelow_append (before behind : List NotarizedCheckpoint)
    (hbefore : ∀np∈before,np.nHeight.toInt<nHeight.toInt) :
    pointBelow nHeight (before++behind)=(pointBelow nHeight behind).or before.getLast? := by
  have hall : ∀np∈before,decide (np.nHeight.toInt<nHeight.toInt)=true := by
    intro np hnp
    exact decide_eq_true (hbefore np hnp)
  rw [pointBelow,List.takeWhile_append_of_pos hall,List.getLast?_append]
  rfl

def Sorted (NPOINTS : List NotarizedCheckpoint) : Prop :=
  NPOINTS.Pairwise fun np np' => np.nHeight.toInt≤np'.nHeight.toInt

/-- In a sorted table the scan from a remembered index finds the same point. -/
theorem scanCached_eq (nHeight : Int32) (hsorted : Sorted NPOINTS) (last : Nat)
    (hflag : (scanCached nHeight NPOINTS last).2.2=true) :
    (scanCached nHeight NPOINTS last).1=pointBelow nHeight NPOINTS := by
  unfold scanCached at hflag ⊢
  by_cases hlast : last<NPOINTS.length ∧ 0<last
  · rw [if_pos hlast] at hflag ⊢
    have hidx : last-1<NPOINTS.length := by omega
    rw [List.getElem?_eq_getElem hidx] at hflag ⊢
    simp only at hflag ⊢
    by_cases hbelow : NPOINTS[last-1].nHeight.toInt<nHeight.toInt
    · rw [if_pos hbelow,scanPoints_fst]
      have hsplit := List.take_append_drop last NPOINTS
      have hlen : (NPOINTS.take last).length=last := by
        rw [List.length_take]
        omega
      have hgetLast : (NPOINTS.take last).getLast?=some NPOINTS[last-1] := by
        rw [List.getLast?_eq_getElem?,hlen,List.getElem?_take,if_pos (by omega),
          List.getElem?_eq_getElem hidx]
      have hbefore : ∀np∈NPOINTS.take last,np.nHeight.toInt<nHeight.toInt := by
        intro np hnp
        obtain ⟨i,hi,rfl⟩ := List.mem_iff_getElem.mp hnp
        rw [hlen] at hi
        rw [List.getElem_take]
        rcases Nat.lt_or_ge i (last-1) with hless | hge
        · have hle := List.pairwise_iff_getElem.mp hsorted i (last-1) (by omega) hidx hless
          omega
        · have hsame : i=last-1 := by omega
          subst hsame
          exact hbelow
      conv_rhs => rw [← hsplit]
      rw [pointBelow_append _ _ hbefore,hgetLast]
    · rw [if_neg hbelow] at hflag
      exact absurd hflag (by simp)
  · rw [if_neg hlast] at hflag
    exact absurd hflag (by simp)

/-- Without a remembered index the answer is the last point below the height. -/
theorem notarizedPoint_zero (nHeight : Int32) (NPOINTS : List NotarizedCheckpoint) :
    (notarizedPoint nHeight NPOINTS 0).1=pointBelow nHeight NPOINTS := by
  have hcached : scanCached nHeight NPOINTS 0=(none,0,false) := by
    rw [scanCached,if_neg (by omega)]
  rw [notarizedPoint]
  split
  · rename_i hempty
    rw [hempty]
    rfl
  · rw [hcached]
    simp only [Bool.false_eq_true,if_false,scanPoints_fst,Option.or_none]

theorem notarizedPoint_sorted (hsorted : Sorted NPOINTS) (last : Nat) :
    (notarizedPoint nHeight NPOINTS last).1=pointBelow nHeight NPOINTS := by
  have hcached := scanCached_eq nHeight hsorted last
  rw [notarizedPoint]
  split
  · rename_i hempty
    rw [hempty]
    rfl
  · obtain ⟨⟨np,last',flag⟩,hscan⟩ : ∃r,scanCached nHeight NPOINTS last=r := ⟨_,rfl⟩
    rw [hscan] at hcached ⊢
    cases flag with
    | true => exact hcached rfl
    | false =>
      simp only [Bool.false_eq_true,if_false,scanPoints_fst,Option.or_none]

end Scan

section Points

variable (c : Chain) (sp : HushState)

@[simp] theorem NPOINTS_hushEventadd (height : Int32) (data : EventData) :
    (hushEventadd c sp height data).NPOINTS=sp.NPOINTS := by
  rw [hushEventadd]
  split <;> rfl

theorem NPOINTS_hushEventUndo (ep : HushEvent) : (hushEventUndo sp ep).NPOINTS=sp.NPOINTS := by
  rw [hushEventUndo]
  split
  · split <;> rfl
  · rfl

/-- No event takes its points back. -/
theorem NPOINTS_rewindEvents (height : Int32) (eps : List HushEvent) :
    (rewindEvents height eps sp).NPOINTS=sp.NPOINTS := by
  induction eps generalizing sp with
  | nil => rfl
  | cons ep eps ih =>
    rw [rewindEvents]
    split
    · rfl
    · rw [ih,NPOINTS_hushEventUndo]

@[simp] theorem NPOINTS_hushEventRewind (height : Int32) :
    (hushEventRewind sp height).NPOINTS=sp.NPOINTS :=
  NPOINTS_rewindEvents sp height sp.Hush_events

theorem NPOINTS_hushSethushheight (hushheight : Int32) (timestamp : BitVec 32) :
    (hushSethushheight sp hushheight timestamp).NPOINTS=sp.NPOINTS := by
  rw [hushSethushheight]
  split <;> split <;> rfl

@[simp] theorem NPOINTS_hushEventaddHushheight (height hushheight : Int32)
    (timestamp : BitVec 32) :
    (hushEventaddHushheight c sp height hushheight timestamp).NPOINTS=sp.NPOINTS := by
  rw [hushEventaddHushheight]
  split
  · rw [NPOINTS_hushSethushheight,NPOINTS_hushEventadd]
  · rw [NPOINTS_hushEventRewind,NPOINTS_hushEventadd]

@[simp] theorem NPOINTS_hushEventaddOpreturn (height : Int32) (txid : Uint256)
    (value : BitVec 64) (vout : BitVec 16) (buf : List Byte) :
    (hushEventaddOpreturn c sp height txid value vout buf).NPOINTS=sp.NPOINTS := by
  rw [hushEventaddOpreturn]
  split
  · rfl
  · rw [NPOINTS_hushEventadd]

@[simp] theorem NPOINTS_hushEventaddPricefeed (height : Int32) (prices : List (BitVec 32)) :
    (hushEventaddPricefeed c sp height prices).NPOINTS=sp.NPOINTS := by
  rw [hushEventaddPricefeed]
  split
  · rw [NPOINTS_hushEventadd]
  · rfl

end Points

/-- The call of `hush_stateupdate` reaches its last branch, the notarization. -/
def UpdateArgs.Notarizes (a : UpdateArgs) : Prop :=
  0<a.height.toInt ∧ a.HUSHheight=0 ∧ a.opretbuf=[] ∧ a.notarypubs=[] ∧
    ¬(a.voutmask≠0 ∧ 0<a.numvouts.toNat) ∧ a.pvals=[]

/-- `hush_eventadd_notarized` does not turn the notarization of the state down. -/
def Recordable (c : Chain) (height : Int32) (sp : HushState) : Prop :=
  ¬(c.IS_HUSH_NOTARY≠0 ∧ c.hushVerifynotarization c.symbol c.dest height sp.NOTARIZED_HEIGHT
    sp.NOTARIZED_HASH sp.NOTARIZED_DESTTXID<0) ∧ sp.NOTARIZED_HEIGHT.toInt<height.toInt

/-- Height of the block that the step belongs to. -/
def Step.height : Step → Int32
  | .update a => a.height
  | .notarize height _ _ _ _ _ => height
  | .reorg height _ => height
  | .regtest height _ _ => height

/-- The step records a notarization as a point of the table. -/
def Step.Records (c : Chain) (n : Node) : Step → Prop
  | .update a => a.Notarizes ∧ Recordable c a.height n.sp
  | .notarize height notarizedheight srchash desttxid MoM MoMdepth =>
      notarizedheight.toInt>n.sp.NOTARIZED_HEIGHT.toInt ∧
        notarizedheight.toInt<height.toInt ∧ 0<height.toInt ∧
        Recordable c height (setNotarized n.sp notarizedheight srchash desttxid MoM MoMdepth)
  | .reorg _ _ => False
  | .regtest _ _ _ => False

/-- The table after a call: one more point at this height, or the same table. -/
def PointAdded (height : Int32) (P : Prop) (pts pts' : List NotarizedCheckpoint) : Prop :=
  (P → ∃pt,pt.nHeight=height ∧ pts'=pts++[pt]) ∧ (¬P → pts'=pts)

theorem pointAdded_notarized (c : Chain) (sp : HushState) (height : Int32) :
    PointAdded height (Recordable c height sp) sp.NPOINTS
      (hushEventaddNotarized c sp height sp.NOTARIZED_HASH sp.NOTARIZED_DESTTXID
        sp.NOTARIZED_HEIGHT sp.MoM sp.MoMdepth).NPOINTS := by
  constructor
  · rintro ⟨hverified,hbelow⟩
    rw [hushEventaddNotarized,if_neg hverified,if_pos c.symbol_eq_coin,hushNotarizedUpdate,
      if_neg (by omega),NPOINTS_hushEventadd]
    exact ⟨_,rfl,rfl⟩
  · intro hnot
    rw [hushEventaddNotarized]
    split
    · rfl
    · rename_i hverified
      have habove : sp.NOTARIZED_HEIGHT.toInt≥height.toInt := by
        by_contra hlt
        exact hnot ⟨hverified,by omega⟩
      rw [if_pos c.symbol_eq_coin,hushNotarizedUpdate,if_pos habove,NPOINTS_hushEventadd]

theorem pointAdded_update (c : Chain) (n : Node) (a : UpdateArgs) :
    PointAdded a.height (a.Notarizes ∧ Recordable c a.height n.sp) n.sp.NPOINTS
      (hushStateupdate c a n).2.sp.NPOINTS := by
  by_cases hnotarizes : a.Notarizes
  · have hadded := pointAdded_notarized c n.sp a.height
    obtain ⟨hpos,hheight,hopret,hpubs,hmask,hpvals⟩ := hnotarizes
    have hstate : (hushStateupdate c a n).2.sp.NPOINTS=
        (hushEventaddNotarized c n.sp a.height n.sp.NOTARIZED_HASH n.sp.NOTARIZED_DESTTXID
          n.sp.NOTARIZED_HEIGHT n.sp.MoM n.sp.MoMdepth).NPOINTS := by
      rw [hushStateupdate,if_neg (by omega),if_neg (not_not.mpr hheight),
        if_neg (not_not.mpr hopret),if_neg (not_not.mpr hpubs),if_neg hmask,
        if_neg (not_not.mpr hpvals)]
      rfl
    rw [hstate]
    refine ⟨fun h => hadded.1 h.2,fun h => hadded.2 fun hrec => h ⟨?_,hrec⟩⟩
    exact ⟨hpos,hheight,hopret,hpubs,hmask,hpvals⟩
  · refine ⟨fun h => absurd h.1 hnotarizes,fun _ => ?_⟩
    rw [hushStateupdate]
    split
    · rfl
    · rename_i hpos
      split
      · simp [Node.mapState_eq]
      · rename_i hheight
        split
        · simp [Node.mapState_eq]
        · rename_i hopret
          split
          · simp [hushEventaddPubkeys,hushNotarysinit,Node.mapState_eq]
          · rename_i hpubs
            split
            · rfl
            · rename_i hmask
              split
              · split
                · simp [Node.mapState_eq]
                · rfl
              · rename_i hpvals
                refine absurd ⟨by omega,?_,?_,?_,hmask,?_⟩ hnotarizes
                · exact not_not.mp hheight
                · exact not_not.mp hopret
                · exact not_not.mp hpubs
                · exact not_not.mp hpvals

theorem plain_notarizes {height : Int32} (h : 0<height.toInt) :
    (UpdateArgs.plain height).Notarizes :=
  ⟨h,rfl,rfl,rfl,by simp [UpdateArgs.plain],rfl⟩

theorem reorged_not_notarizes (height : Int32) (nTime : BitVec 32) :
    ¬(UpdateArgs.reorged height nTime).Notarizes := by
  rintro ⟨hpos,hheight,-⟩
  have hpos : 0<height.toInt := hpos
  have hzero : -height=0 := hheight
  rw [BitVec.neg_eq_zero_iff.mp hzero] at hpos
  exact absurd hpos (by decide)

@[simp] theorem NPOINTS_setNotarized (sp : HushState) (notarizedheight : Int32)
    (srchash desttxid MoM : Uint256) (MoMdepth : Int32) :
    (setNotarized sp notarizedheight srchash desttxid MoM MoMdepth).NPOINTS=sp.NPOINTS := by
  rw [setNotarized]
  split <;> rfl

/-- One step adds a point at its height or leaves the table as it is. -/
theorem pointAdded_live (c : Chain) (n : Node) (s : Step) :
    PointAdded s.height (s.Records c n) n.sp.NPOINTS (live c n s).2.sp.NPOINTS := by
  cases s with
  | update a => exact pointAdded_update c n a
  | notarize height notarizedheight srchash desttxid MoM MoMdepth =>
    by_cases hguard : notarizedheight.toInt>n.sp.NOTARIZED_HEIGHT.toInt ∧
        notarizedheight.toInt<height.toInt
    · have hadded := pointAdded_update c (n.mapState fun sp =>
        setNotarized sp notarizedheight srchash desttxid MoM MoMdepth) (.plain height)
      simp only [Node.mapState_eq,NPOINTS_setNotarized] at hadded
      rw [live,if_pos hguard]
      refine ⟨fun h => ?_,fun h => ?_⟩
      · obtain ⟨-,-,hpos,hrec⟩ := h
        exact hadded.1 ⟨plain_notarizes hpos,hrec⟩
      · apply hadded.2
        rintro ⟨hplain,hrec⟩
        exact h ⟨hguard.1,hguard.2,hplain.1,hrec⟩
    · rw [live,if_neg hguard]
      exact ⟨fun h => absurd ⟨h.1,h.2.1⟩ hguard,fun _ => rfl⟩
  | reorg height nTime =>
    have hadded := pointAdded_update c (n.mapState (hushEventRewind · height))
      (.reorged height nTime)
    refine ⟨False.elim,fun _ => ?_⟩
    rw [live,hadded.2 fun h => reorged_not_notarizes height nTime h.1]
    simp [Node.mapState_eq]
  | regtest height blockhash txhash => exact ⟨False.elim,fun _ => rfl⟩

/-- A block connection step or a call of `hush_notarizeddata`. -/
inductive Action
  | connect (s : Step)
  | query (nHeight : Int32)
  deriving DecidableEq

/-- The node with the index that `hush_notarizeddata` remembers. -/
structure Tracked where
  node : Node
  last_NPOINTSi : Nat

namespace Tracked

def act (c : Chain) (t : Tracked) : Action → Tracked
  | .connect s => {t with node := (live c t.node s).2}
  | .query nHeight =>
      {t with last_NPOINTSi :=
        (hushNotarizeddata nHeight t.node.sp.NPOINTS t.last_NPOINTSi).2}

/-- No point is recorded at a height below one that is recorded already. -/
def InOrder (c : Chain) (t : Tracked) : Action → Prop
  | .connect s =>
      s.Records c t.node → ∀np∈t.node.sp.NPOINTS,np.nHeight.toInt ≤ s.height.toInt
  | .query _ => True

def fresh (Pubkeys : List KnotariesEntry) (hwmheight : Int32) : Tracked :=
  ⟨.fresh Pubkeys hwmheight,0⟩

theorem act_sorted (c : Chain) (t : Tracked) (a : Action) (horder : t.InOrder c a)
    (hsorted : Sorted t.node.sp.NPOINTS) : Sorted (t.act c a).node.sp.NPOINTS := by
  cases a with
  | query nHeight => exact hsorted
  | connect s =>
    have hadded := pointAdded_live c t.node s
    simp only [act]
    by_cases hrecords : s.Records c t.node
    · obtain ⟨pt,hheight,hpoints⟩ := hadded.1 hrecords
      rw [hpoints,Sorted,List.pairwise_append]
      refine ⟨hsorted,List.pairwise_singleton _ _,?_⟩
      intro np hnp np' hnp'
      rw [List.mem_singleton.mp hnp',hheight]
      exact horder hrecords np hnp
    · rw [hadded.2 hrecords]
      exact hsorted

end Tracked

/-- In a run whose points are recorded in the order of their heights, every query
answers as it would without the remembered index. -/
theorem notarizeddata_cacheless (c : Chain) (Pubkeys : List KnotariesEntry) (hwmheight : Int32)
    (acts : List Action)
    (horder : Along (Tracked.act c) (Tracked.InOrder c) acts (.fresh Pubkeys hwmheight))
    (nHeight : Int32) :
    let t := acts.foldl (Tracked.act c) (.fresh Pubkeys hwmheight)
    (hushNotarizeddata nHeight t.node.sp.NPOINTS t.last_NPOINTSi).1=
        (hushNotarizeddata nHeight t.node.sp.NPOINTS 0).1 ∧
      (hushNotarizeddata nHeight t.node.sp.NPOINTS 0).1=
        notarizedAnswer (pointBelow nHeight t.node.sp.NPOINTS) := by
  have hsorted : Sorted (acts.foldl (Tracked.act c)
      (Tracked.fresh Pubkeys hwmheight)).node.sp.NPOINTS :=
    foldl_keeps (I := fun t : Tracked => Sorted t.node.sp.NPOINTS)
      (fun t a => Tracked.act_sorted c t a) acts _ horder List.Pairwise.nil
  refine ⟨?_,?_⟩
  · simp only [hushNotarizeddata]
    rw [notarizedPoint_sorted hsorted,notarizedPoint_zero]
  · simp only [hushNotarizeddata]
    rw [notarizedPoint_zero]

/-- A reorganisation above the notarized block, with queries on both branches. -/
def orderedRun : List Action :=
  [.connect (.notarize 100 90 5 6 7 3),.connect (.update (.connected 100 1600)),.query 120,
    .connect (.update (.connected 101 1700)),.connect (.reorg 101 1750),
    .connect (.update (.connected 101 1750)),.connect (.notarize 102 95 8 9 7 3),.query 101]

theorem notarizeddata_cacheless_orderedRun :
    let t := orderedRun.foldl (Tracked.act smartChain) (.fresh [] 0)
    (hushNotarizeddata 102 t.node.sp.NPOINTS t.last_NPOINTSi).1=
        (hushNotarizeddata 102 t.node.sp.NPOINTS 0).1 ∧
      (hushNotarizeddata 102 t.node.sp.NPOINTS 0).1=
        notarizedAnswer (pointBelow 102 t.node.sp.NPOINTS) := by
  refine notarizeddata_cacheless smartChain [] 0 orderedRun ?_ 102
  refine ⟨fun _ => by decide +kernel,fun _ => by decide +kernel,trivial,
    fun _ => by decide +kernel,fun _ => by decide +kernel,fun _ => by decide +kernel,
    fun _ => by decide +kernel,trivial,trivial⟩

/-- A notarization at height 100, a reorganisation to 95 and notarizations at 97
and 101 on the new branch; the query at 200 makes the index 2. -/
def crossedRun : List Action :=
  [.connect (.notarize 100 90 5 6 7 3),.connect (.update (.connected 100 1600)),
    .connect (.reorg 95 1700),.connect (.update (.connected 95 1700)),
    .connect (.update (.connected 96 1710)),.connect (.notarize 97 92 15 16 7 3),
    .connect (.update (.connected 97 1720)),.connect (.update (.connected 98 1730)),
    .connect (.update (.connected 99 1740)),.connect (.update (.connected 100 1750)),
    .connect (.notarize 101 95 25 26 7 3),.connect (.update (.connected 101 1760)),.query 200]

/-- At height 99 the cached scan answers with the point of block 97, the scan from
the start with nothing. -/
theorem notarizeddata_reads_cache :
    let t := crossedRun.foldl (Tracked.act smartChain) (.fresh [] 0)
    (hushNotarizeddata 99 t.node.sp.NPOINTS t.last_NPOINTSi).1=(15,16,92) ∧
      (hushNotarizeddata 99 t.node.sp.NPOINTS 0).1=(0,0,0) := by
  decide +kernel

/-- The step assigns `NOTARIZED_HEIGHT`. -/
def Step.Assigns (c : Chain) (n : Node) : Step → Prop
  | .notarize height notarizedheight _ _ _ _ =>
      notarizedheight.toInt>n.sp.NOTARIZED_HEIGHT.toInt ∧ notarizedheight.toInt<height.toInt
  | .regtest _ _ _ => True
  | .update a => a.Notarizes ∧ Recordable c a.height n.sp
  | .reorg _ _ => False

instance (a : UpdateArgs) : Decidable a.Notarizes := inferInstanceAs (Decidable (_ ∧ _))

instance (c : Chain) (height : Int32) (sp : HushState) : Decidable (Recordable c height sp) :=
  inferInstanceAs (Decidable (_ ∧ _))

instance (c : Chain) (n : Node) : (s : Step) → Decidable (s.Records c n)
  | .update _ => inferInstanceAs (Decidable (_ ∧ _))
  | .notarize _ _ _ _ _ _ => inferInstanceAs (Decidable (_ ∧ _))
  | .reorg _ _ => isFalse id
  | .regtest _ _ _ => isFalse id

instance (c : Chain) (n : Node) : (s : Step) → Decidable (s.Assigns c n)
  | .update _ => inferInstanceAs (Decidable (_ ∧ _))
  | .notarize _ _ _ _ _ _ => inferInstanceAs (Decidable (_ ∧ _))
  | .reorg _ _ => isFalse id
  | .regtest _ _ _ => isTrue trivial

/-- Heights of the blocks whose notarizations a run recorded, oldest first. -/
def recordedAt (c : Chain) : List Step → Node → List Int32
  | [],_ => []
  | s::ss,n => (if s.Records c n then [s.height] else [])++recordedAt c ss (live c n s).2

/-- Height of the block that assigned `NOTARIZED_HEIGHT` last in a run. -/
def assignedAt (c : Chain) : List Step → Node → Option Int32 → Option Int32
  | [],_,last => last
  | s::ss,n,last =>
      assignedAt c ss (live c n s).2 (if s.Assigns c n then some s.height else last)

theorem NOTARIZED_HEIGHT_hushStateupdate (c : Chain) (n : Node) (a : UpdateArgs) :
    (hushStateupdate c a n).2.sp.NOTARIZED_HEIGHT=n.sp.NOTARIZED_HEIGHT := by
  have hlatest : ∀sp sp',latest sp'=latest sp → sp'.NOTARIZED_HEIGHT=sp.NOTARIZED_HEIGHT := by
    intro sp sp' h
    exact congrArg (fun x : Uint256 × Int32 × Int32 => x.2.2) h
  rw [hushStateupdate]
  split
  · rfl
  · split
    · exact hlatest _ _ (latest_hushEventaddHushheight c n.sp _ _ _)
    · split
      · exact hlatest _ _ (latest_hushEventaddOpreturn c n.sp _ _ _ _ _)
      · split
        · exact hlatest _ _ (latest_hushEventadd c n.sp _ _)
        · split
          · rfl
          · split
            · split
              · exact hlatest _ _ (latest_hushEventaddPricefeed c n.sp _ _)
              · rfl
            · simp only [Node.mapState_eq]
              rw [hushEventaddNotarized]
              split
              · rfl
              · rw [if_pos c.symbol_eq_coin,hushNotarizedUpdate]
                split
                · exact hlatest _ _ (latest_hushEventadd c n.sp _ _)
                · rfl

theorem NOTARIZED_HEIGHT_hushEventRewind (sp : HushState) (height : Int32) :
    (hushEventRewind sp height).NOTARIZED_HEIGHT=sp.NOTARIZED_HEIGHT :=
  congrArg (fun x : Uint256 × Int32 × Int32 => x.2.2)
    (latest_rewindEvents sp height sp.Hush_events)

/-- Only the assigning steps change `NOTARIZED_HEIGHT`. -/
theorem NOTARIZED_HEIGHT_live (c : Chain) (n : Node) (s : Step) (h : ¬s.Assigns c n) :
    (live c n s).2.sp.NOTARIZED_HEIGHT=n.sp.NOTARIZED_HEIGHT := by
  cases s with
  | update a => exact NOTARIZED_HEIGHT_hushStateupdate c n a
  | notarize height notarizedheight srchash desttxid MoM MoMdepth =>
    have hguard : ¬(notarizedheight.toInt>n.sp.NOTARIZED_HEIGHT.toInt ∧
        notarizedheight.toInt<height.toInt) := h
    rw [live,if_neg hguard]
  | reorg height nTime =>
    rw [live,NOTARIZED_HEIGHT_hushStateupdate]
    exact NOTARIZED_HEIGHT_hushEventRewind n.sp height
  | regtest height blockhash txhash => exact absurd trivial h

/-- The points of the table are those of the recording blocks, in their order. -/
theorem NPOINTS_liveRun (c : Chain) (ss : List Step) (n : Node) :
    (liveRun c ss n).2.sp.NPOINTS.map (·.nHeight)=
      n.sp.NPOINTS.map (·.nHeight)++recordedAt c ss n := by
  induction ss generalizing n with
  | nil => simp [liveRun,recordedAt]
  | cons s ss ih =>
    have hadded := pointAdded_live c n s
    have hrun : (liveRun c (s::ss) n).2=(liveRun c ss (live c n s).2).2 := rfl
    rw [hrun,ih,recordedAt]
    by_cases hrecords : s.Records c n
    · obtain ⟨pt,hheight,hpoints⟩ := hadded.1 hrecords
      rw [hpoints,if_pos hrecords,List.map_append,List.append_assoc,List.map_singleton,hheight]
    · rw [hadded.2 hrecords,if_neg hrecords,List.nil_append]

/-- Every notarization that a rewind from `sp` to `sp'` leaves in the state was
recorded by a block below the height; `assigned` is the block that set
`NOTARIZED_HEIGHT` last. -/
structure HeldBelow (height : Int32) (sp sp' : HushState) (assigned : Option Int32) : Prop where
  points : ∀np∈sp'.NPOINTS,np.nHeight.toInt<height.toInt
  notarizedHeight : ∀k,assigned=some k → sp'.NOTARIZED_HEIGHT=sp.NOTARIZED_HEIGHT →
    k.toInt<height.toInt
  notarizeddata : ∀nHeight last np,
    (notarizedPoint nHeight sp'.NPOINTS last).1=some np → np.nHeight.toInt<height.toInt
  npptr : ∀nHeight np,hushNpptrForHeight sp'.NPOINTS nHeight=some np →
    np.nHeight.toInt<height.toInt

theorem mem_of_scanPoints {nHeight : Int32} {pts : List NotarizedCheckpoint} {i last : Nat}
    {np : Option NotarizedCheckpoint} {pt : NotarizedCheckpoint}
    (h : (scanPoints nHeight pts i np last).1=some pt) : pt∈pts ∨ np=some pt := by
  rw [scanPoints_fst,pointBelow] at h
  rcases Option.or_eq_some_iff.mp h with hfound | ⟨-,hold⟩
  · exact .inl (List.takeWhile_subset _ (List.mem_of_getLast? hfound))
  · exact .inr hold

theorem mem_of_scanCached {nHeight : Int32} {NPOINTS : List NotarizedCheckpoint} {last : Nat}
    {pt : NotarizedCheckpoint} (h : (scanCached nHeight NPOINTS last).1=some pt) :
    pt∈NPOINTS := by
  rw [scanCached] at h
  split at h
  · cases hget : NPOINTS[last-1]? with
    | none => simp [hget] at h
    | some np =>
      have hmem : np∈NPOINTS := List.mem_of_getElem? hget
      simp only [hget] at h
      split at h
      · rcases mem_of_scanPoints h with hfound | hold
        · exact List.mem_of_mem_drop hfound
        · rw [← Option.some.inj hold]
          exact hmem
      · rw [← Option.some.inj h]
        exact hmem
  · simp at h

/-- The answer is a point of the table, with any remembered index. -/
theorem mem_of_notarizedPoint {nHeight : Int32} {NPOINTS : List NotarizedCheckpoint} {last : Nat}
    {pt : NotarizedCheckpoint} (h : (notarizedPoint nHeight NPOINTS last).1=some pt) :
    pt∈NPOINTS := by
  rw [notarizedPoint] at h
  split at h
  · simp at h
  · obtain ⟨⟨np,last',flag⟩,hscan⟩ : ∃r,scanCached nHeight NPOINTS last=r := ⟨_,rfl⟩
    rw [hscan] at h
    cases flag with
    | true =>
      have hfst : (scanCached nHeight NPOINTS last).1=some pt := by
        rw [hscan]
        exact h
      exact mem_of_scanCached hfst
    | false =>
      rcases mem_of_scanPoints h with hfound | hold
      · exact hfound
      · simp at hold

/-- After a run, a rewind leaves only notarizations from below its height exactly
when no block at or above it recorded one. -/
theorem rewind_heldBelow_iff (c : Chain) (Pubkeys : List KnotariesEntry) (hwmheight : Int32)
    (ss : List Step) (height : Int32) :
    let n := (liveRun c ss (.fresh Pubkeys hwmheight)).2
    HeldBelow height n.sp (hushEventRewind n.sp height)
        (assignedAt c ss (.fresh Pubkeys hwmheight) none) ↔
      (∀k∈recordedAt c ss (.fresh Pubkeys hwmheight),k.toInt<height.toInt) ∧
        ∀k,assignedAt c ss (.fresh Pubkeys hwmheight) none=some k → k.toInt<height.toInt := by
  intro n
  have hpoints : n.sp.NPOINTS.map (·.nHeight)=recordedAt c ss (.fresh Pubkeys hwmheight) :=
    NPOINTS_liveRun c ss (.fresh Pubkeys hwmheight)
  have hbelow : (∀np∈n.sp.NPOINTS,np.nHeight.toInt<height.toInt) ↔
      ∀k∈recordedAt c ss (.fresh Pubkeys hwmheight),k.toInt<height.toInt := by
    rw [← hpoints]
    simp
  constructor
  · intro hheld
    refine ⟨hbelow.mp ?_,?_⟩
    · simpa using hheld.points
    · intro k hk
      exact hheld.notarizedHeight k hk (NOTARIZED_HEIGHT_hushEventRewind n.sp height)
  · rintro ⟨hrecorded,hassigned⟩
    have hnp := hbelow.mpr hrecorded
    refine ⟨?_,fun k hk _ => hassigned k hk,?_,?_⟩
    · simpa using hnp
    · intro nHeight last np hfound
      rw [NPOINTS_hushEventRewind] at hfound
      exact hnp np (mem_of_notarizedPoint hfound)
    · intro nHeight np hfound
      rw [NPOINTS_hushEventRewind] at hfound
      exact hnp np (List.mem_reverse.mp (List.mem_of_find?_eq_some hfound))

/-- A notarization in block 100, which the reorganisation to 95 disconnects. -/
def notarizedTip : List Step :=
  [.update (.connected 99 1500),.notarize 100 90 5 6 7 3,.update (.connected 100 1600)]

/-- The rewind to 95 keeps the point of block 100 and the height it notarized. -/
theorem rewind_keeps_notarization :
    let n := (liveRun smartChain notarizedTip (.fresh [] 0)).2
    ¬HeldBelow 95 n.sp (hushEventRewind n.sp 95)
      (assignedAt smartChain notarizedTip (.fresh [] 0) none) := by
  intro n hheld
  have hpoint : (⟨100,90,5,6,7,3⟩ : NotarizedCheckpoint)∈(hushEventRewind n.sp 95).NPOINTS := by
    decide +kernel
  exact absurd (hheld.points _ hpoint) (by decide)

end Zdeex.Notary
