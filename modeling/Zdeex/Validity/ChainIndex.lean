import Mathlib.Algebra.Group.Nat.Defs
import Zdeex.Validity.SkipList

namespace Zdeex.Validity

open Zdeex.Framework

/-- `CChain`; a slot may hold a null pointer. -/
structure CChain (H : Type) where
  vChain : List (Option H)
  lastTip : Option H

variable {H : Type} [DecidableEq H]

namespace CChain

def empty : CChain H := ⟨[],none⟩

variable (T : BlockTree H) (c : CChain H)

/-- `Height`, -1 for an empty chain. -/
def height : Int := c.vChain.length-1

/-- `Tip`. -/
def getTip : Option H := if c.vChain.length>0 then (c.vChain[c.vChain.length-1]?).join else none

/-- `LastTip`. -/
def getLastTip : Option H := if c.vChain.length>0 then c.lastTip else none

/-- `operator[]`. -/
def block (nHeight : Int) : Option H :=
  if nHeight<0 ∨ nHeight ≥ c.vChain.length then none else (c.vChain[nHeight.toNat]?).join

def contains (pindex : H) : Bool := c.block (T.nHeight pindex)=some pindex

/-- `resize` of a vector of pointers. -/
def resize (vChain : List (Option H)) (n : Nat) : List (Option H) :=
  vChain.take n++List.replicate (n-vChain.length) none

/-- The loop of `SetTip`; `none` stands for more rounds than `fuel`. -/
def setTipLoop : Nat → List (Option H) → Option H → Option (List (Option H))
  | _,vChain,none => some vChain
  | 0,_,some _ => none
  | fuel+1,vChain,some pindex =>
      if vChain[T.nHeight pindex]?=some (some pindex) then some vChain
      else setTipLoop fuel (vChain.set (T.nHeight pindex) (some pindex)) (T.pprev pindex)

def setTip (c : CChain H) : Option H → Option (CChain H)
  | none => some ⟨[],none⟩
  | some pindex =>
      (setTipLoop T (T.nHeight pindex+1) (resize c.vChain (T.nHeight pindex+1)) (some pindex)).map
        fun vChain => ⟨vChain,some pindex⟩

/-- The loop of `GetLocator`. Blocks stand for their hashes; the step doubles after the tenth
block. -/
def locatorLoop : Nat → Option H → Nat → List H → Option (List H)
  | _,none,_,vHave => some vHave
  | 0,some _,_,_ => none
  | fuel+1,some pindex,nStep,vHave =>
      let vHave := vHave++[pindex]
      if T.nHeight pindex=0 then some vHave
      else
        let nHeight : Int := max (T.nHeight pindex-nStep) 0
        let next := if c.contains T pindex then some (c.block nHeight)
          else T.getAncestor pindex nHeight
        next.bind fun pindex =>
          locatorLoop fuel pindex (if vHave.length>10 then nStep*2 else nStep) vHave

/-- A null pointer stands for the tip. -/
def getLocator (pindex : Option H) : Option (List H) :=
  let start := pindex.or c.getTip
  locatorLoop T c (start.elim 0 T.nHeight+1) start 1 []

/-- The loop of `FindFork`. -/
def findForkLoop : Nat → Option H → Option (Option H)
  | _,none => some none
  | fuel,some pindex =>
      if c.contains T pindex then some (some pindex)
      else
        match fuel with
        | 0 => none
        | fuel+1 => findForkLoop fuel (T.pprev pindex)

def findFork : Option H → Option (Option H)
  | none => some none
  | some pindex =>
      let start := if T.nHeight pindex > c.height then T.getAncestor pindex c.height
        else some (some pindex)
      start.bind (findForkLoop T c (T.nHeight pindex+1))

end CChain

variable {H : Type} [DecidableEq H]

namespace CChain

variable {T : BlockTree H} {c : CChain H} {a b h p t : H} {tip : Option H}

/-- The slots are the way from the root to the tip. -/
def Mirrors (T : BlockTree H) (vChain : List (Option H)) : Option H → Prop
  | none => vChain=[]
  | some t => vChain.length=T.nHeight t+1 ∧
      ∀i ≤ T.nHeight t,vChain[i]?=some (T.follow (T.nHeight t-i) t)

/-- Below a slot that is filled are the parents of its block. -/
def Consistent (T : BlockTree H) (n : Nat) (vChain : List (Option H)) : Prop :=
  ∀i<n,∀a,vChain[i]?=some (some a) → ∀j ≤ i,vChain[j]?=some (T.follow (i-j) a)

/-- The loop stops at the first slot that matches, and what is below that slot is right. -/
theorem setTipLoop_spec (hT : T.Built) {fuel : Nat} {vChain : List (Option H)}
    (hlen : T.nHeight p<vChain.length) (hcon : Consistent T (T.nHeight p+1) vChain)
    (hfuel : T.nHeight p<fuel) :
    ∃w,setTipLoop T fuel vChain (some p)=some w ∧ w.length=vChain.length ∧
      (∀j ≤ T.nHeight p,w[j]?=some (T.follow (T.nHeight p-j) p)) ∧
      ∀j,T.nHeight p<j → w[j]?=vChain[j]? := by
  induction fuel generalizing p vChain with
  | zero => omega
  | succ fuel ih =>
    rw [setTipLoop]
    split_ifs with hstop
    · exact ⟨vChain,rfl,rfl,hcon _ (by omega) p hstop,fun _ _ => rfl⟩
    · have hset : ∀j,(vChain.set (T.nHeight p) (some p))[j]?=
          if T.nHeight p=j then some (some p) else vChain[j]? := by
        intro j
        by_cases hj : T.nHeight p=j
        · rw [if_pos hj,← hj,List.getElem?_set_self hlen]
        · rw [if_neg hj,List.getElem?_set_ne hj]
      cases hp : T.pprev p with
      | none =>
        have hroot := hT.root p hp
        refine ⟨_,by rw [setTipLoop],List.length_set,fun j hj => ?_,fun j hj => ?_⟩
        · have hzero : T.nHeight p-j=0 := by omega
          rw [hset,if_pos (by omega),hzero]
          rfl
        · rw [hset,if_neg (by omega)]
      | some q =>
        have hstep := hT.height p q hp
        have hcon' : Consistent T (T.nHeight q+1) (vChain.set (T.nHeight p) (some p)) := by
          intro i hi a ha j hj
          rw [hset,if_neg (by omega)] at ha ⊢
          exact hcon i (by omega) a ha j hj
        obtain ⟨w,hw,hwlen,hlow,hhigh⟩ := ih (p := q) (by rw [List.length_set]; omega) hcon'
          (by omega)
        refine ⟨w,hw,hwlen.trans List.length_set,fun j hj => ?_,fun j hj => ?_⟩
        · by_cases htop : T.nHeight p=j
          · have hzero : T.nHeight p-j=0 := by omega
            rw [hhigh j (by omega),hset,if_pos htop,hzero]
            rfl
          · have hone : T.nHeight p-j=T.nHeight q-j+1 := by omega
            rw [hlow j (by omega),hone,BlockTree.follow_succ,hp]
            rfl
        · rw [hhigh j (by omega),hset,if_neg (by omega)]

omit [DecidableEq H] in
theorem length_resize (vChain : List (Option H)) (n : Nat) : (resize vChain n).length=n := by
  rw [resize,List.length_append,List.length_take,List.length_replicate]
  omega

omit [DecidableEq H] in
theorem resize_some {vChain : List (Option H)} {n i : Nat}
    (h : (resize vChain n)[i]?=some (some a)) : i<n ∧ vChain[i]?=some (some a) := by
  have hi : i<n := by
    by_contra hcon
    rw [List.getElem?_eq_none (by rw [length_resize]; omega)] at h
    cases h
  refine ⟨hi,?_⟩
  unfold resize at h
  by_cases hlt : i<vChain.length
  · rw [List.getElem?_append_left (by rw [List.length_take]; omega),
      List.getElem?_take_of_lt hi] at h
    exact h
  · rw [List.getElem?_append_right (by rw [List.length_take]; omega),
      List.getElem?_replicate] at h
    split_ifs at h
    cases h

theorem Mirrors.consistent {vChain : List (Option H)} (h : Mirrors T vChain tip) (n : Nat) : Consistent T n (resize vChain n) := by
  intro i hi a ha j hj
  obtain ⟨-,hold⟩ := resize_some ha
  cases tip with
  | none =>
    rw [show vChain=[] from h] at hold
    cases hold
  | some t =>
    obtain ⟨hlen,hslots⟩ := h
    have hit : i ≤ T.nHeight t := by
      by_contra hcon
      rw [List.getElem?_eq_none (by omega)] at hold
      cases hold
    rw [hslots i hit,Option.some.injEq] at hold
    have hsum : T.nHeight t-j=T.nHeight t-i+(i-j) := by omega
    have hnew : (resize vChain n)[j]?=vChain[j]? := by
      unfold resize
      rw [List.getElem?_append_left (by rw [List.length_take]; omega),
        List.getElem?_take_of_lt (by omega)]
    rw [hnew,hslots j (by omega),hsum,BlockTree.follow_add,hold]
    rfl

/-- Whatever the tip was, the slots follow the new one. -/
theorem setTip_spec (hT : T.Built) (h : Mirrors T c.vChain tip) (new : Option H) :
    ∃c',setTip T c new=some c' ∧ Mirrors T c'.vChain new ∧ c'.lastTip=new := by
  cases new with
  | none => exact ⟨_,rfl,rfl,rfl⟩
  | some p =>
    have hroom : T.nHeight p<(resize c.vChain (T.nHeight p+1)).length := by
      rw [length_resize]
      omega
    obtain ⟨w,hw,hlen,hslots,-⟩ := setTipLoop_spec hT hroom (h.consistent _)
      (Nat.lt_succ_self (T.nHeight p))
    refine ⟨⟨w,some p⟩,by rw [setTip,hw]; rfl,⟨?_,hslots⟩,rfl⟩
    rw [hlen,length_resize]

/-- `a` is `h` or a block that its parents lead to. -/
def Ancestor (T : BlockTree H) (a h : H) : Prop := ∃n,T.follow n h=some a

theorem Ancestor.height_le (hT : T.Built) (h : Ancestor T a b) : T.nHeight a ≤ T.nHeight b := by
  obtain ⟨n,hn⟩ := h
  have hsum := hT.height_follow hn
  omega

/-- There is one ancestor at each height. -/
theorem ancestor_iff (hT : T.Built) : Ancestor T a b ↔
    T.nHeight a ≤ T.nHeight b ∧ T.follow (T.nHeight b-T.nHeight a) b=some a := by
  constructor
  · rintro ⟨n,hn⟩
    have hsum := hT.height_follow hn
    have hdist : T.nHeight b-T.nHeight a=n := by omega
    exact ⟨by omega,by rw [hdist]; exact hn⟩
  · rintro ⟨-,h⟩
    exact ⟨_,h⟩

theorem block_eq (hm : Mirrors T c.vChain (some t)) {i : Nat} (hi : i ≤ T.nHeight t) :
    c.block i=T.follow (T.nHeight t-i) t := by
  obtain ⟨hlen,hslots⟩ := hm
  rw [block,if_neg (by omega),Int.toNat_natCast,hslots i hi]
  rfl

theorem block_of_gt (hm : Mirrors T c.vChain (some t)) {i : Nat} (hi : T.nHeight t < i) :
    c.block i=none := by
  obtain ⟨hlen,-⟩ := hm
  rw [block,if_pos (by omega)]

theorem contains_iff (hT : T.Built) (hm : Mirrors T c.vChain tip) (b : H) :
    c.contains T b=true ↔ ∃t∈tip,Ancestor T b t := by
  unfold contains
  rw [decide_eq_true_iff]
  cases tip with
  | none =>
    have hnil : c.vChain=[] := hm
    refine iff_of_false (fun h => ?_) (fun h => ?_)
    · rw [block,hnil,if_pos (by rw [List.length_nil]; omega)] at h
      cases h
    · obtain ⟨t,ht,-⟩ := h
      cases ht
  | some t =>
    have hone : (∃t'∈some t,Ancestor T b t') ↔ Ancestor T b t := by simp
    rw [hone,ancestor_iff hT]
    by_cases hle : T.nHeight b ≤ T.nHeight t
    · rw [block_eq hm hle]
      exact (and_iff_right hle).symm
    · rw [block_of_gt hm (by omega)]
      exact iff_of_false (by simp) (fun h => hle h.1)

theorem height_eq (hm : Mirrors T c.vChain tip) : c.height=tip.elim (-1) fun t => (T.nHeight t : Int) := by
  unfold height
  cases tip with
  | none =>
    rw [show c.vChain=[] from hm]
    rfl
  | some t =>
    obtain ⟨hlen,-⟩ := hm
    rw [hlen,Option.elim_some]
    omega

theorem getTip_eq (hm : Mirrors T c.vChain tip) : c.getTip=tip := by
  unfold getTip
  cases tip with
  | none =>
    rw [show c.vChain=[] from hm]
    rfl
  | some t =>
    obtain ⟨hlen,hslots⟩ := hm
    have htop := hslots (T.nHeight t) (Nat.le_refl _)
    rw [Nat.sub_self] at htop
    rw [hlen,if_pos (Nat.succ_pos _),Nat.add_sub_cancel,htop]
    rfl

/-- The highest of the blocks that two blocks have for an ancestor; a null pointer where there is
none. -/
def IsFork (T : BlockTree H) (tip : Option H) (b : H) : Option H → Prop
  | none => ∀t∈tip,∀a,Ancestor T a b → ¬Ancestor T a t
  | some f => Ancestor T f b ∧ (∃t∈tip,Ancestor T f t) ∧
      ∀t∈tip,∀a,Ancestor T a b → Ancestor T a t → T.nHeight a ≤ T.nHeight f

/-- The first block of the chain on the way from `p` to the root. -/
theorem findForkLoop_spec (hT : T.Built) {fuel : Nat} (hfuel : T.nHeight p<fuel) :
    ∃r,findForkLoop T c fuel (some p)=some r ∧ (∀f∈r,Ancestor T f p ∧ c.contains T f=true) ∧
      ∀a,Ancestor T a p → c.contains T a=true → ∃f∈r,T.nHeight a ≤ T.nHeight f := by
  induction fuel generalizing p with
  | zero => omega
  | succ fuel ih =>
    rw [findForkLoop.eq_def]
    dsimp only
    split_ifs with hin
    · refine ⟨some p,rfl,fun f hf => ?_,fun a ha _ => ⟨p,rfl,ha.height_le hT⟩⟩
      obtain rfl := Option.some.inj hf
      exact ⟨⟨0,rfl⟩,hin⟩
    · have hself : ∀a,Ancestor T a p → c.contains T a=true → ∃q,T.pprev p=some q ∧ Ancestor T a q := by
        rintro a ⟨n,hn⟩ ha
        cases n with
        | zero =>
          obtain rfl := Option.some.inj hn
          exact absurd ha hin
        | succ n =>
          obtain ⟨q,hq,hqa⟩ := Option.bind_eq_some_iff.mp hn
          exact ⟨q,hq,n,hqa⟩
      cases hp : T.pprev p with
      | none =>
        refine ⟨none,by rw [findForkLoop.eq_def],(fun f hf => by cases hf),fun a ha hc => ?_⟩
        obtain ⟨q,hq,-⟩ := hself a ha hc
        rw [hp] at hq
        cases hq
      | some q =>
        have hstep := hT.height p q hp
        obtain ⟨r,hr,hfound,hhigh⟩ := ih (p := q) (by omega)
        refine ⟨r,hr,fun f hf => ?_,fun a ha hc => ?_⟩
        · obtain ⟨⟨n,hn⟩,hcont⟩ := hfound f hf
          refine ⟨⟨n+1,?_⟩,hcont⟩
          rw [BlockTree.follow_succ,hp]
          exact hn
        · obtain ⟨q',hq',haq⟩ := hself a ha hc
          obtain rfl := Option.some.inj (hp.symm.trans hq')
          exact hhigh a haq hc

theorem isFork_of {r : Option H} (hT : T.Built) (hm : Mirrors T c.vChain tip)
    (hfound : ∀f∈r,Ancestor T f b ∧ c.contains T f=true)
    (hhigh : ∀a,Ancestor T a b → c.contains T a=true → ∃f∈r,T.nHeight a ≤ T.nHeight f) :
    IsFork T tip b r := by
  cases r with
  | none =>
    intro t ht a hab hat
    obtain ⟨f,hf,-⟩ := hhigh a hab ((contains_iff hT hm a).mpr ⟨t,ht,hat⟩)
    cases hf
  | some f =>
    obtain ⟨hfb,hfc⟩ := hfound f rfl
    refine ⟨hfb,(contains_iff hT hm f).mp hfc,fun t ht a hab hat => ?_⟩
    obtain ⟨f',hf',hle⟩ := hhigh a hab ((contains_iff hT hm a).mpr ⟨t,ht,hat⟩)
    obtain rfl := Option.some.inj hf'
    exact hle

/-- A block above the tip is brought down to its height first. -/
theorem findFork_spec (hT : T.Built) (hm : Mirrors T c.vChain tip) (b : H) :
    ∃r,findFork T c (some b)=some r ∧ IsFork T tip b r := by
  have hheight := height_eq hm
  unfold findFork
  dsimp only
  split_ifs with hover
  · rw [hT.getAncestor_eq]
    cases tip with
    | none =>
      rw [Option.elim_none] at hheight
      refine ⟨none,?_,fun t ht => by cases ht⟩
      rw [if_pos (by omega),Option.bind_some,findForkLoop.eq_def]
    | some t =>
      rw [Option.elim_some] at hheight
      obtain ⟨s,hs⟩ := hT.exists_follow (h := b) (n := ((T.nHeight b : Int)-c.height).toNat) (by omega)
      have hsum := hT.height_follow hs
      rw [if_neg (by omega),hs,Option.bind_some]
      have hfuel : T.nHeight s<T.nHeight b+1 := by omega
      obtain ⟨r,hr,hfound,hhigh⟩ := findForkLoop_spec (c := c) hT hfuel
      refine ⟨r,hr,isFork_of hT hm (fun f hf => ?_) (fun a hab hc => ?_)⟩
      · obtain ⟨⟨n,hn⟩,hcont⟩ := hfound f hf
        refine ⟨⟨((T.nHeight b : Int)-c.height).toNat+n,?_⟩,hcont⟩
        rw [BlockTree.follow_add,hs]
        exact hn
      · -- what the chain holds is not above its tip, so the walk down passes it by
        obtain ⟨t',ht',hat⟩ := (contains_iff hT hm a).mp hc
        obtain rfl := Option.some.inj ht'
        have hlow := hat.height_le hT
        obtain ⟨hle,hdist⟩ := (ancestor_iff hT).mp hab
        have hsplit : T.nHeight b-T.nHeight a=
            ((T.nHeight b : Int)-c.height).toNat+(T.nHeight s-T.nHeight a) := by omega
        rw [hsplit,BlockTree.follow_add,hs] at hdist
        exact hhigh a ⟨_,hdist⟩ hc
  · rw [Option.bind_some]
    obtain ⟨r,hr,hfound,hhigh⟩ := findForkLoop_spec (c := c) hT (Nat.lt_succ_self (T.nHeight b))
    exact ⟨r,hr,isFork_of hT hm hfound hhigh⟩

/-- A walk back from `p` that makes single steps for the first eleven places and then steps that
double, until it comes to height 0; `k` places are taken. -/
inductive Locator (T : BlockTree H) : Nat → H → List H → Prop
  | genesis {k : Nat} {p : H} : T.nHeight p=0 → Locator T k p [p]
  | step {k : Nat} {p q : H} {L : List H} : T.nHeight p≠0 →
      T.follow (min (2^(k-10)) (T.nHeight p)) p=some q → Locator T (k+1) q L → Locator T k p (p::L)

/-- A block of the chain is found in its slots and another one by its skip pointers. -/
theorem next_eq (hT : T.Built) (hm : Mirrors T c.vChain tip) (p : H) (nStep : Nat) :
    (if c.contains T p then some (c.block (max ((T.nHeight p : Int)-nStep) 0))
      else T.getAncestor p (max ((T.nHeight p : Int)-nStep) 0))=
        some (T.follow (min nStep (T.nHeight p)) p) := by
  have hback : ((T.nHeight p : Int)-max ((T.nHeight p : Int)-nStep) 0).toNat=
      min nStep (T.nHeight p) := by omega
  split_ifs with hin
  · obtain ⟨t,ht,hanc⟩ := (contains_iff hT hm p).mp hin
    obtain rfl : tip=some t := ht
    obtain ⟨hle,hdist⟩ := (ancestor_iff hT).mp hanc
    have hplace : max ((T.nHeight p : Int)-nStep) 0=((T.nHeight p-nStep : Nat) : Int) := by omega
    have hsum : T.nHeight t-(T.nHeight p-nStep)=
        T.nHeight t-T.nHeight p+min nStep (T.nHeight p) := by omega
    rw [hplace,block_eq hm (by omega),hsum,BlockTree.follow_add,hdist,Option.bind_some]
  · rw [hT.getAncestor_eq,if_neg (by omega),hback]

theorem locatorLoop_spec (hT : T.Built) (hm : Mirrors T c.vChain tip) {fuel : Nat}
    (hfuel : T.nHeight p<fuel) (vHave : List H) :
    ∃L,locatorLoop T c fuel (some p) (2^(vHave.length-10)) vHave=some (vHave++L) ∧
      Locator T vHave.length p L := by
  induction fuel generalizing p vHave with
  | zero => omega
  | succ fuel ih =>
    rw [locatorLoop]
    dsimp only
    by_cases hroot : T.nHeight p=0
    · rw [if_pos hroot]
      exact ⟨[p],rfl,.genesis hroot⟩
    · rw [if_neg hroot]
      obtain ⟨q,hq⟩ := hT.exists_follow (h := p) (n := min (2^(vHave.length-10)) (T.nHeight p))
        (by omega)
      have hsum := hT.height_follow hq
      have hpos := Nat.two_pow_pos (vHave.length-10)
      have hstep : (if (vHave++[p]).length>10 then 2^(vHave.length-10)*2 else 2^(vHave.length-10))=
          2^((vHave++[p]).length-10) := by
        rw [List.length_append,List.length_singleton]
        split_ifs with hlong
        · rw [← Nat.pow_succ]
          congr 1
          omega
        · congr 1
          omega
      obtain ⟨L,hL,hloc⟩ := ih (p := q) (by omega) (vHave++[p])
      refine ⟨p::L,?_,.step hroot hq (by rwa [List.length_append] at hloc)⟩
      rw [next_eq hT hm,hq,Option.bind_some,hstep,hL,List.append_assoc]
      rfl

/-- What a locator tells. -/
structure Tells (T : BlockTree H) (b : H) (L : List H) : Prop where
  head : L.head?=some b
  ancestors : ∀a∈L,Ancestor T a b
  decreasing : L.Pairwise fun a a' => T.nHeight a'<T.nHeight a
  single : ∀i<11,∀a a',L[i]?=some a → L[i+1]?=some a' → T.nHeight a=T.nHeight a'+1
  doubling : ∀(i : Nat) a a' a'',L[i]?=some a → L[i+1]?=some a' → L[i+2]?=some a'' →
    T.nHeight a'-T.nHeight a''≤2*(T.nHeight a-T.nHeight a')
  last : ∃g,L.getLast?=some g ∧ T.nHeight g=0 ∧ T.pprev g=none

namespace Locator

variable {k : Nat} {L : List H}

theorem head (h : Locator T k p L) : L.head?=some p := by
  cases h <;> rfl

theorem ancestors (h : Locator T k p L) : ∀a∈L,Ancestor T a p := by
  induction h with
  | genesis hroot =>
    intro a ha
    rw [List.mem_singleton.mp ha]
    exact ⟨0,rfl⟩
  | @step k p q L hroot hq hL ih =>
    intro a ha
    rcases List.mem_cons.mp ha with rfl | ha
    · exact ⟨0,rfl⟩
    · obtain ⟨n,hn⟩ := ih a ha
      refine ⟨min (2^(k-10)) (T.nHeight p)+n,?_⟩
      rw [BlockTree.follow_add,hq]
      exact hn

theorem decreasing (hT : T.Built) (h : Locator T k p L) :
    L.Pairwise fun a a' => T.nHeight a'<T.nHeight a := by
  induction h with
  | genesis hroot => exact List.pairwise_singleton _ _
  | @step k p q L hroot hq hL ih =>
    refine List.pairwise_cons.mpr ⟨fun a ha => ?_,ih⟩
    have hsum := hT.height_follow hq
    have hpos := Nat.two_pow_pos (k-10)
    have hle := (hL.ancestors a ha).height_le hT
    omega

/-- The gap after a place. -/
theorem gap (hT : T.Built) (h : Locator T k p L) {i : Nat} {a a' : H} (ha : L[i]?=some a)
    (ha' : L[i+1]?=some a') :
    T.nHeight a≠0 ∧ T.nHeight a=T.nHeight a'+min (2^(k+i-10)) (T.nHeight a) := by
  induction h generalizing i with
  | genesis hroot => cases ha'
  | @step k p q L hroot hq hL ih =>
    cases i with
    | zero =>
      obtain rfl := Option.some.inj ha
      have hhead := hL.head
      rw [List.head?_eq_getElem?] at hhead
      obtain rfl := Option.some.inj (hhead.symm.trans ha')
      have hsum := hT.height_follow hq
      rw [Nat.add_zero]
      exact ⟨hroot,hsum.symm⟩
    | succ i =>
      have hgap := ih ha ha'
      rwa [Nat.add_right_comm,Nat.add_assoc] at hgap

theorem last (hT : T.Built) (h : Locator T k p L) :
    ∃g,L.getLast?=some g ∧ T.nHeight g=0 ∧ T.pprev g=none := by
  induction h with
  | @genesis k p hroot =>
    refine ⟨p,rfl,hroot,?_⟩
    cases hp : T.pprev p with
    | none => rfl
    | some q =>
      have hstep := hT.height p q hp
      omega
  | @step k p q L hroot hq hL ih =>
    obtain ⟨g,hg,hend⟩ := ih
    refine ⟨g,?_,hend⟩
    rw [List.getLast?_cons,hg]
    rfl

theorem tells (hT : T.Built) (h : Locator T 0 p L) : Tells T p L where
  head := h.head
  ancestors := h.ancestors
  decreasing := h.decreasing hT
  single i hi a a' ha ha' := by
    obtain ⟨hne,hgap⟩ := h.gap hT ha ha'
    have hone : 2^(0+i-10)=1 := by
      rw [show 0+i-10=0 by omega,pow_zero]
    rw [hone] at hgap
    omega
  doubling i a a' a'' ha ha' ha'' := by
    obtain ⟨hne,hgap⟩ := h.gap hT ha ha'
    obtain ⟨hne',hgap'⟩ := h.gap hT ha' ha''
    have hpow : 2^(0+(i+1)-10)≤2*2^(0+i-10) := by
      rw [Nat.mul_comm,← Nat.pow_succ]
      exact Nat.pow_le_pow_right (by decide) (by omega)
    omega
  last := h.last hT

end Locator

theorem getLocator_spec (hT : T.Built) (hm : Mirrors T c.vChain tip) (b : H) :
    ∃L,getLocator T c (some b)=some L ∧ Tells T b L := by
  obtain ⟨L,hL,hloc⟩ := locatorLoop_spec hT hm (Nat.lt_succ_self (T.nHeight b)) []
  exact ⟨L,hL,hloc.tells hT⟩

/-- After every run of changes of the tip the slots mirror the last tip. -/
theorem run_mirrors (hT : T.Built) (tips : List (Option H)) (hm : Mirrors T c.vChain tip)
    (hlast : c.getLastTip=tip) :
    ∃c',run (setTip T) tips c=some c' ∧ Mirrors T c'.vChain (tips.getLast?.getD tip) ∧
      c'.getLastTip=tips.getLast?.getD tip := by
  induction tips generalizing c tip with
  | nil => exact ⟨c,rfl,hm,hlast⟩
  | cons new tips ih =>
    obtain ⟨c₁,h₁,hm₁,hlast₁⟩ := setTip_spec hT hm new
    have hget : c₁.getLastTip=new := by
      unfold getLastTip
      cases new with
      | none =>
        rw [show c₁.vChain=[] from hm₁]
        rfl
      | some t => rw [if_pos (by rw [hm₁.1]; omega),hlast₁]
    obtain ⟨c',h',hm',hlast'⟩ := ih hm₁ hget
    refine ⟨c',by rw [run,h₁]; exact h',?_⟩
    rw [List.getLast?_cons]
    exact ⟨hm',hlast'⟩

/-- In every tree of blocks and after every run of changes of the tip: the slots are the ancestors
of the tip, membership and forks are those of the tree, and locators end and lead to the
genesis block. -/
theorem chain_mirrors_tip (ops : List (TreeOp H)) (tips : List (Option H)) :
    ∃T c,run BlockTree.step ops BlockTree.empty=some T ∧ run (setTip T) tips empty=some c ∧
      c.getTip=tips.getLast?.getD none ∧ c.getLastTip=c.getTip ∧
      c.height=c.getTip.elim (-1) (fun t => (T.nHeight t : Int)) ∧
      (∀t∈c.getTip,∀i : Nat,i ≤ T.nHeight t →
        ∃a,c.block i=some a ∧ Ancestor T a t ∧ T.nHeight a=i) ∧
      (∀b,c.contains T b=true ↔ ∃t∈c.getTip,Ancestor T b t) ∧
      (∀b,∃r,findFork T c (some b)=some r ∧ IsFork T c.getTip b r) ∧
      ∀b,∃L,getLocator T c (some b)=some L ∧ Tells T b L := by
  obtain ⟨T,hrun,hT⟩ := BlockTree.run_built ops
  have hstart : Mirrors T (empty : CChain H).vChain none := rfl
  obtain ⟨c,hc,hm,hlast⟩ := run_mirrors hT tips hstart rfl
  have htip := getTip_eq hm
  rw [← htip] at hm hlast
  refine ⟨T,c,hrun,hc,htip,hlast,height_eq hm,fun t ht i hi => ?_,contains_iff hT hm,
    findFork_spec hT hm,getLocator_spec hT hm⟩
  rw [show c.getTip=some t from ht] at hm
  obtain ⟨a,ha⟩ := hT.exists_follow (h := t) (n := T.nHeight t-i) (by omega)
  have hsum := hT.height_follow ha
  exact ⟨a,(block_eq hm hi).trans ha,⟨_,ha⟩,by omega⟩

end CChain

end Zdeex.Validity
