import Zdeex.Emission.ScSupplyBound

namespace Zdeex.Emission

open Zdeex.Framework Finset

section Width

variable {W : Nat} {c : AcParams} {h : Nat}

/-- A sum that fits is stored as it is. -/
theorem add_mod_of_le {cur x v : Nat} (hle : cur+x≤v) (hv : v<W) : (cur+x%W)%W=cur+x := by
  rw [Nat.mod_eq_of_lt (by omega : x<W),Nat.mod_eq_of_lt (by omega)]

theorem periodLoop_le {period decay curEnd fuel k reward cur r v : Nat}
    (hrun : periodLoop id period decay curEnd fuel k reward cur=some (r,v)) : cur≤v := by
  induction fuel generalizing k reward cur with
  | zero => exact absurd hrun (by simp [periodLoop])
  | succ fuel ih =>
    rw [periodLoop] at hrun
    split at hrun
    · have hle := ih hrun
      rw [id_eq,id_eq] at hle
      exact Nat.le_of_add_right_le hle
    · simp only [Option.some.injEq,Prod.mk.injEq] at hrun
      omega

theorem periodLoop_mod {period decay curEnd fuel k reward cur r v : Nat} (hv : v<W)
    (hrun : periodLoop id period decay curEnd fuel k reward cur=some (r,v)) :
    periodLoop (·%W) period decay curEnd fuel k reward cur=some (r,v) := by
  induction fuel generalizing k reward cur with
  | zero => exact absurd hrun (by simp [periodLoop])
  | succ fuel ih =>
    rw [periodLoop] at hrun ⊢
    split at hrun
    · rename_i hk
      rw [id_eq,id_eq] at hrun
      rw [if_pos hk,add_mod_of_le (periodLoop_le hrun) hv]
      exact ih hrun
    · rename_i hk
      rw [if_neg hk]
      exact hrun

theorem eraSupply_mod {j cur v : Nat} (hv : v<W) (hrun : eraSupply id c h j cur=some v) :
    cur≤v ∧ eraSupply (·%W) c h j cur=some v := by
  by_cases hR : c.REWARD j=0
  · rw [eraSupply_zero _ hR] at hrun ⊢
    exact ⟨(Option.some.inj hrun).le,hrun⟩
  by_cases hH : c.HALVING j=0
  · rw [eraSupply_flat _ hR hH] at hrun ⊢
    have hsum := Option.some.inj hrun
    rw [id_eq,id_eq] at hsum
    exact ⟨Nat.le_of_add_right_le hsum.le,by rw [add_mod_of_le hsum.le hv,hsum]⟩
  by_cases hD : c.DECAY j=coin
  · rw [eraSupply,if_pos (by omega)] at hrun ⊢
    dsimp only at hrun ⊢
    rw [if_neg hH,if_pos hD] at hrun ⊢
    have hsum := Option.some.inj hrun
    rw [id_eq] at hsum
    exact ⟨Nat.le_of_add_right_le hsum.le,by rw [hsum,Nat.mod_eq_of_lt hv]⟩
  · rw [eraSupply_stepped _ hR hH hD] at hrun ⊢
    obtain ⟨⟨r,m⟩,hloop,hsum⟩ := Option.map_eq_some_iff.1 hrun
    rw [id_eq,id_eq] at hsum
    have hm : m≤v := Nat.le_of_add_right_le hsum.le
    refine ⟨(periodLoop_le hloop).trans hm,?_⟩
    rw [periodLoop_mod (hm.trans_lt hv) hloop,Option.map_some,add_mod_of_le hsum.le hv,hsum]

theorem eraLoop_mod {n j cur v : Nat} (hv : v<W) (hrun : eraLoop id c h n j cur=some v) :
    cur≤v ∧ eraLoop (·%W) c h n j cur=some v := by
  induction n generalizing j cur with
  | zero => exact ⟨(Option.some.inj hrun).le,hrun⟩
  | succ n ih =>
    rw [eraLoop] at hrun ⊢
    split at hrun
    · rename_i hbreak
      rw [if_pos hbreak]
      exact ⟨(Option.some.inj hrun).le,hrun⟩
    · rename_i hbreak
      rw [if_neg hbreak]
      obtain ⟨m,hera,hrest⟩ := Option.bind_eq_some_iff.1 hrun
      obtain ⟨hle,hmod⟩ := ih hrest
      obtain ⟨hle',hera'⟩ := eraSupply_mod (by omega : m<W) hera
      exact ⟨by omega,by rw [hera']; exact hmod⟩

/-- While the exact amount fits, the stored one is exact. -/
theorem curMoney_mod {v : Nat} (hv : v<W) (hrun : curMoney id c h=some v) :
    curMoney (·%W) c h=some v := by
  unfold curMoney at hrun ⊢
  split at hrun
  · rename_i hzero
    have hsum := Option.some.inj hrun
    rw [id_eq,id_eq] at hsum
    have hbase := (Nat.le_of_add_right_le hsum.le).trans_lt hv
    rw [if_pos hzero]
    beta_reduce
    rw [Nat.mod_eq_of_lt hbase,hsum,Nat.mod_eq_of_lt hv]
  · rename_i hzero
    rw [id_eq] at hrun
    obtain ⟨hle,hmod⟩ := eraLoop_mod hv hrun
    rw [if_neg hzero]
    beta_reduce
    rw [Nat.mod_eq_of_lt (hle.trans_lt hv)]
    exact hmod

end Width

section Emitted

variable {c : AcParams} {h : Nat}

theorem sum_range_succ_eq_Ico (f : Nat → Nat) (h : Nat) :
    ∑ n ∈ range h,f (n+1)=∑ n ∈ Ico 1 (h+1),f n := by
  rw [sum_Ico_eq_sum_range,Nat.add_sub_cancel]
  exact sum_congr rfl fun n _ => by rw [Nat.add_comm]

/-- The premine of block 1. -/
def AcParams.premine (c : AcParams) : Nat := c.SUPPLY*coin+c.magic24

theorem magic24_lt (c : AcParams) : c.magic24<2^24 := by
  have hle : (c.MAGIC &&& 0xffffff).toNat≤(0xffffff#32).toNat := by
    rw [BitVec.toNat_and]
    exact Nat.and_le_right
  exact Nat.lt_of_le_of_lt hle (by decide)

theorem premine_lt (hc : c.Accepted) : c.premine<2^62 := by
  have hmagic := magic24_lt c
  have hsupply := Nat.mul_le_mul_right coin hc.SUPPLY_le
  unfold AcParams.premine
  unfold coin at hsupply ⊢
  omega

/-- Blocks after the first one create what they mine. -/
theorem hushScBlockSubsidy_of_ne_one (hc : c.Accepted) {n : Nat} (hn : n≠1) :
    hushScBlockSubsidy c n=minedSubsidy c n := by
  have hsupply := hc.SUPPLY_le
  rw [hushScBlockSubsidy,if_neg (by omega),if_neg hn]

theorem hushScBlockSubsidy_one (hc : c.Accepted) (hmined : minedSubsidy c 1<2^62) :
    hushScBlockSubsidy c 1=c.premine+if c.LASTERA=0 then 0 else minedSubsidy c 1 := by
  have hsupply := hc.SUPPLY_le
  have hpremine := premine_lt hc
  rw [hushScBlockSubsidy,if_neg (by omega),if_pos rfl,hc.not_staked,if_neg Bool.false_ne_true]
  change (if c.LASTERA=0 then c.premine%2^64 else (minedSubsidy c 1+c.premine)%2^64)=_
  split
  · rw [Nat.mod_eq_of_lt (by omega),Nat.add_zero]
  · rw [Nat.mod_eq_of_lt (by omega),Nat.add_comm]

/-- The blocks up to `h` create the premine and what they mine; the only era of
a chain does not pay block 1. -/
theorem emitted_eq (hc : c.Accepted) (hh : 1≤h) (hmined : minedSubsidy c 1<2^62) :
    emitted c h+(if c.LASTERA=0 then minedSubsidy c 1 else 0)=
      c.premine+∑ n ∈ Ico 1 (h+1),minedSubsidy c n := by
  have hrest : ∑ n ∈ Ico (1+1) (h+1),hushScBlockSubsidy c n=
      ∑ n ∈ Ico (1+1) (h+1),minedSubsidy c n :=
    sum_congr rfl fun n hn => hushScBlockSubsidy_of_ne_one hc (by
      have := (mem_Ico.1 hn).1
      omega)
  rw [emitted,sum_range_succ_eq_Ico,sum_eq_sum_Ico_succ_bot (by omega),
    sum_eq_sum_Ico_succ_bot (by omega : 1<h+1) (minedSubsidy c),hrest,
    hushScBlockSubsidy_one hc hmined]
  split
  · omega
  · omega

end Emitted

section Bound

variable {c : AcParams} {h : Nat}

/-- A height is in one of the eras up to `j`, or era `j` is over. -/
theorem inEra_or_after (c : AcParams) (n j : Nat) :
    (∃i≤j,c.InEra n i) ∨ c.ENDSUBSIDY j≠0 ∧ c.ENDSUBSIDY j≤n := by
  induction j with
  | zero =>
    by_cases hend : c.ENDSUBSIDY 0≠0 ∧ c.ENDSUBSIDY 0≤n
    · exact .inr hend
    · exact .inl ⟨0,le_rfl,Nat.zero_le _,by omega⟩
  | succ j ih =>
    rcases ih with ⟨i,hi,hera⟩ | hprev
    · exact .inl ⟨i,by omega,hera⟩
    · by_cases hend : c.ENDSUBSIDY (j+1)≠0 ∧ c.ENDSUBSIDY (j+1)≤n
      · exact .inr hend
      · exact .inl ⟨j+1,le_rfl,by rw [eraStart_succ]; exact hprev.2,by omega⟩

theorem minedSubsidy_lt (hc : c.Accepted) (hidle : ¬c.Idle) (hmax : h≤10000000)
    (hcov : ∀j ≤ c.LASTERA,c.eraStart j<h → c.Covers h j) {n : Nat} (hn : n≤h) :
    minedSubsidy c n<2^62 := by
  rcases inEra_or_after c n c.LASTERA with ⟨j,hj,hera⟩ | hafter
  · rw [minedSubsidy_eq hc hidle hj hera,eraSubsidy_eq_pay hc hmax hj (hcov j hj) hn hera]
    exact pay_lt hc hera
  · rw [minedSubsidy_after hc hidle hafter.1 hafter.2]
    decide

theorem baseMoney_eq (c : AcParams) : c.baseMoney=c.premine+51*coin := by
  unfold AcParams.baseMoney AcParams.premine genesisTxVal coin
  omega

/-- The closed form keeps up with the blocks at height `h`: on a chain without
rewards its 32-bit product is at most 2^32 short, and on a chain with several eras
block `h`, which it leaves out, pays no more than the coin and the genesis value
added to the supply and what is counted too much. -/
def AcParams.KeepsUp (c : AcParams) (h : Nat) : Prop :=
  (c.LASTERA=0 → c.Idle → h<858994) ∧
  (c.LASTERA≠0 → ∀j ≤ c.LASTERA,c.InEra h j → c.pay j h≤51*coin+c.overcounts h 0)

/-- The last era goes down. -/
theorem pay_antitone (hc : c.Accepted) (hlast : c.LASTERA=0) {m n : Nat} (hmn : m≤n) :
    c.pay 0 n≤ c.pay 0 m := by
  have hs : (m-c.eraStart 0)/c.HALVING 0≤(n-c.eraStart 0)/c.HALVING 0 :=
    Nat.div_le_div_right (Nat.sub_le_sub_right hmn _)
  unfold AcParams.pay AcParams.paidAfter
  split_ifs
  · exact le_rfl
  · unfold AcParams.linearPay
    dsimp only
    rw [if_pos (.inl hlast.symm),if_pos (.inl hlast.symm)]
    exact Nat.sub_le_sub_left
      (Nat.div_le_div_right (Nat.mul_le_mul_left _ (Nat.mul_le_mul_right _ hs))) _
  · exact rewardAfter_antitone hc 0 hs

/-- The block at height `h` against the slack of the supply. -/
theorem mined_le_iff (hc : c.Accepted) (hidle : ¬c.Idle) (hh : 1≤h) (hmax : h≤10000000)
    (hcov : ∀j ≤ c.LASTERA,c.eraStart j<h → c.Covers h j) :
    minedSubsidy c h≤51*coin+c.overcounts h 0+(if c.LASTERA=0 then minedSubsidy c 1 else 0) ↔
      c.KeepsUp h := by
  have hera : ∀j ≤ c.LASTERA,c.InEra h j → minedSubsidy c h=c.pay j h := fun j hj hin => by
    rw [minedSubsidy_eq hc hidle hj hin,eraSubsidy_eq_pay hc hmax hj (hcov j hj) le_rfl hin]
  by_cases hlast : c.LASTERA=0
  · refine iff_of_true ?_ ⟨fun _ h => absurd h hidle,fun hne => absurd hlast hne⟩
    rw [if_pos hlast]
    rcases inEra_or_after c h c.LASTERA with ⟨j,hj,hin⟩ | hafter
    · obtain rfl : j=0 := by omega
      have hfirst : c.InEra 1 0 := ⟨Nat.zero_le _,hin.2.imp id (lt_of_le_of_lt hh)⟩
      have hone : minedSubsidy c 1=c.pay 0 1 := by
        rw [minedSubsidy_eq hc hidle (Nat.zero_le _) hfirst,
          eraSubsidy_eq_pay hc hmax (Nat.zero_le _) (hcov 0 (Nat.zero_le _)) hh hfirst]
      have hanti := pay_antitone hc hlast hh
      rw [hera 0 (Nat.zero_le _) hin,hone]
      omega
    · rw [minedSubsidy_after hc hidle hafter.1 hafter.2]
      exact Nat.zero_le _
  · rw [if_neg hlast,Nat.add_zero]
    constructor
    · intro hle
      refine ⟨fun hzero => absurd hzero hlast,fun _ j hj hin => ?_⟩
      rw [← hera j hj hin]
      exact hle
    · intro hkeeps
      rcases inEra_or_after c h c.LASTERA with ⟨j,hj,hin⟩ | hafter
      · rw [hera j hj hin]
        exact hkeeps.2 hlast j hj hin
      · rw [minedSubsidy_after hc hidle hafter.1 hafter.2]
        exact Nat.zero_le _

/-- Chains that pay by eras. -/
theorem curMoney_pays (hc : c.Accepted) (hidle : ¬c.Idle)
    (hera : ¬(c.LASTERA=0 ∧ c.REWARD 0=0)) (hh : 2≤h) (hmax : h≤10000000)
    (hcov : ∀j ≤ c.LASTERA,c.eraStart j<h → c.Covers h j) :
    ∃m,curMoney id c h=some m ∧ (c.KeepsUp h → emitted c h ≤ m) ∧
      (c.ShortPeriods h → emitted c h ≤ m → c.KeepsUp h) := by
  have hfirst := minedSubsidy_lt hc hidle hmax hcov (show 1≤h by omega)
  have hemitted := emitted_eq hc (show 1≤h by omega) hfirst
  have hiff := mined_le_iff hc hidle (by omega) hmax hcov
  obtain ⟨extra,hloop,hextra⟩ := eraLoop_pays hc hidle hh hmax hcov (c.LASTERA+1) 0 c.baseMoney
    (Nat.zero_add _) (.inl rfl) (Nat.zero_le _)
  rw [firstBlock_zero,baseMoney_eq] at hloop
  rw [sum_Ico_succ_top (show 1≤h by omega)] at hemitted
  refine ⟨_,by rw [curMoney,if_neg hera,id_eq,baseMoney_eq]; exact hloop,fun hkeeps => ?_,
    fun hshort hle => ?_⟩
  · have hmined := hiff.2 hkeeps
    omega
  · rw [hextra hshort] at hle
    exact hiff.1 (by omega)

/-- A chain with one era and no reward mines the same amount at every height. -/
theorem minedSubsidy_idle (hlast : c.LASTERA=0) (hR : c.REWARD 0=0) (n : Nat) :
    minedSubsidy c n=if c.ENDSUBSIDY 0=0 then 10000 else 0 := by
  have hera : eraSubsidy c n 0=0 := by
    unfold eraSubsidy
    dsimp only
    rw [if_neg (by simp [hR,hlast]),hR]
  unfold minedSubsidy
  by_cases hend : c.ENDSUBSIDY 0=0
  · rw [if_pos ⟨hend,hR⟩,if_pos hend]
  · rw [if_neg (fun hidle => hend hidle.1),if_neg hend,if_pos hend]
    dsimp only
    split
    · rename_i hle
      rw [hlast] at hle ⊢
      rw [show findEra c n (0+1) 0=0 by omega,hera]
    · rfl

theorem emitted_idle (hc : c.Accepted) (hlast : c.LASTERA=0) (hR : c.REWARD 0=0) (hh : 1≤h) :
    emitted c h=c.premine+(h-1)*if c.ENDSUBSIDY 0=0 then 10000 else 0 := by
  have hfirst : minedSubsidy c 1<2^62 := by
    rw [minedSubsidy_idle hlast hR]
    split
    · decide
    · decide
  have hemitted := emitted_eq hc hh hfirst
  rw [if_pos hlast,sum_const_nat fun n _ => minedSubsidy_idle hlast hR n,Nat.card_Ico,
    Nat.add_sub_cancel,minedSubsidy_idle hlast hR] at hemitted
  split at hemitted
  · rename_i hend
    rw [if_pos hend]
    omega
  · rename_i hend
    rw [if_neg hend]
    omega

theorem curMoney_idle (hc : c.Accepted) (hlast : c.LASTERA=0) (hR : c.REWARD 0=0)
    (hh : 1≤h) (hmax : h≤10000000) :
    ∃m,curMoney id c h=some m ∧ (emitted c h ≤ m ↔ c.KeepsUp h) := by
  have hkeeps : c.KeepsUp h ↔ (c.ENDSUBSIDY 0=0 → h<858994) :=
    ⟨fun hkeeps hend => hkeeps.1 hlast ⟨hend,hR⟩,
      fun hlt => ⟨fun _ hidle => hlt hidle.1,fun hne => absurd hlast hne⟩⟩
  refine ⟨c.baseMoney+h*10000%2^32,by rw [curMoney,if_pos ⟨hlast,hR⟩,id_eq,id_eq],?_⟩
  rw [emitted_idle hc hlast hR hh,baseMoney_eq,hkeeps]
  unfold coin
  by_cases hend : c.ENDSUBSIDY 0=0
  · rw [if_pos hend]
    omega
  · rw [if_neg hend]
    omega

/-- The supply is at least what the blocks have created when the closed form keeps
up, and only then while all periods are below 2^31. -/
theorem emitted_le_supply (c : AcParams) (hc : c.Accepted) (h : Nat) (hh : 2≤h)
    (hmax : h≤10000000) (hmoney : ∀m,curMoney id c h=some m → m<2^62)
    (hcov : ∀j ≤ c.LASTERA,c.eraStart j<h → c.Covers h j) :
    (c.KeepsUp h → ∃v,hushCurrentSupply c h=some v ∧ emitted c h≤v) ∧
      (c.ShortPeriods h → (∃v,hushCurrentSupply c h=some v ∧ emitted c h≤v) → c.KeepsUp h) := by
  obtain ⟨m,hm,hkeeps,honly⟩ : ∃m,curMoney id c h=some m ∧ (c.KeepsUp h → emitted c h ≤ m) ∧
      (c.ShortPeriods h → emitted c h ≤ m → c.KeepsUp h) := by
    by_cases hera : c.LASTERA=0 ∧ c.REWARD 0=0
    · obtain ⟨m,hm,hiff⟩ := curMoney_idle hc hera.1 hera.2 (by omega) hmax
      exact ⟨m,hm,hiff.2,fun _ => hiff.1⟩
    · have hidle : ¬c.Idle := by
        rintro ⟨hend,hR⟩
        by_cases hlast : c.LASTERA=0
        · exact hera ⟨hlast,hR⟩
        · have := hc.ENDSUBSIDY_pos 0 (by omega)
          omega
      exact curMoney_pays hc hidle hera hh hmax hcov
  have hlt := hmoney m hm
  have hsupply : hushCurrentSupply c h=some m := by
    rw [hushCurrentSupply,curMoney_mod (by omega) hm,Option.map_some,if_neg (by omega),
      hc.COMMISSION_eq,if_neg (by simp)]
  refine ⟨fun h => ⟨m,hsupply,hkeeps h⟩,?_⟩
  rintro hshort ⟨v,hv,hle⟩
  obtain rfl := Option.some.inj (hsupply.symm.trans hv)
  exact honly hshort hle

/-- Two eras: a halving every two blocks up to height 5, then a reward that falls
to a half every four blocks. -/
def twoEras : AcParams where
  LASTERA := 1
  ENDSUBSIDY := fun j => if j=0 then 5 else 0
  REWARD := fun j => if j=0 then 300000000 else 200000000
  HALVING := fun j => if j=0 then 2 else 4
  DECAY := fun j => if j=0 then 0 else 50000000
  SUPPLY := 10
  COMMISSION := 0
  MAGIC := 0x5a444558
  STAKED := false
  ishush3 := false
  z2zheight := 340000
  REWARD_lt := fun j => by split <;> decide

/-- One era of ten blocks, in which the reward falls by a tenth with every block. -/
def linearEra : AcParams where
  LASTERA := 0
  ENDSUBSIDY := fun j => if j=0 then 10 else 0
  REWARD := fun j => if j=0 then 100000000000 else 0
  HALVING := fun _ => 1
  DECAY := fun _ => coin
  SUPPLY := 10
  COMMISSION := 0
  MAGIC := 0x5a444558
  STAKED := false
  ishush3 := false
  z2zheight := 340000
  REWARD_lt := fun j => by split <;> decide

theorem emitted_le_supply_eras :
    (∃v,hushCurrentSupply twoEras 12=some v ∧ emitted twoEras 12≤v) ∧
      ∃v,hushCurrentSupply linearEra 100=some v ∧ emitted linearEra 100≤v := by
  constructor
  · have hcur : curMoney id twoEras 12=some 8541974200 := by decide +kernel
    refine (emitted_le_supply twoEras ⟨by decide,by decide,by decide,?_,?_,by decide,rfl,rfl,rfl⟩
      12 (by decide) (by decide) ?_ ?_).1 ⟨fun hlast => absurd hlast (by decide),fun _ => ?_⟩
    · intro j
      unfold twoEras
      dsimp only
      split <;> decide
    · intro j
      unfold twoEras coin
      dsimp only
      split <;> decide
    · intro m hm
      rw [hcur] at hm
      obtain rfl := Option.some.inj hm
      decide
    · intro j hj _
      have hj : j=0 ∨ j=1 := by
        have : j≤1 := hj
        omega
      rcases hj with rfl | rfl
      · refine ⟨fun _ hd => absurd hd (by decide),fun _ _ _ n hn _ => ?_,by decide⟩
        show (n-0)/2<64
        omega
      · exact ⟨fun _ hd => absurd hd (by decide),fun _ _ hd => absurd hd (by decide),by decide⟩
    · intro j hj hin
      have hj : j=0 ∨ j=1 := by
        have : j≤1 := hj
        omega
      rcases hj with rfl | rfl
      · exact absurd hin.2 (by decide)
      · decide +kernel
  · have hcur : curMoney id linearEra 100=some 556104474200 := by decide +kernel
    refine (emitted_le_supply linearEra ⟨by decide,by decide,by decide,?_,fun _ => le_rfl,
      by decide,rfl,rfl,rfl⟩ 100 (by decide) (by decide) ?_ ?_).1
        ⟨fun _ hidle => absurd hidle.2 (by decide),fun hne => absurd rfl hne⟩
    · intro j
      unfold linearEra
      dsimp only
      split <;> decide
    · intro m hm
      rw [hcur] at hm
      obtain rfl := Option.some.inj hm
      decide
    · intro j hj _
      obtain rfl : j=0 := Nat.le_zero.1 hj
      refine ⟨fun _ _ => ⟨.inr (.inr ⟨by decide,by decide,by decide,by decide,by decide,by decide,
        by decide,by decide⟩),by decide +kernel⟩,fun _ _ hd => absurd hd (by decide),
        fun _ _ hd => absurd rfl hd⟩

/-- A chain started without `-ac_reward`. -/
def noReward : AcParams where
  LASTERA := 0
  ENDSUBSIDY := fun _ => 0
  REWARD := fun _ => 0
  HALVING := fun _ => 0
  DECAY := fun _ => 0
  SUPPLY := 10
  COMMISSION := 0
  MAGIC := 0x5a444558
  STAKED := false
  ishush3 := false
  z2zheight := 340000
  REWARD_lt := fun _ => by decide

/-- Its blocks create a thousand coins, and `MAX_MONEY` is less than eighty. -/
theorem noReward_exceeds_maxMoney :
    noReward.Accepted ∧ (∀m,curMoney id noReward 10000000=some m → m<2^62) ∧
      ¬∃v,hushMaxMoney noReward=some v ∧ emitted noReward 10000000≤v := by
  have hc : noReward.Accepted :=
    ⟨by decide,fun j hj => absurd hj (Nat.not_lt_zero j),fun j hj => absurd hj (Nat.not_lt_zero j),
      fun _ => Nat.two_pow_pos 64,fun _ => Nat.zero_le _,by decide,rfl,rfl,rfl⟩
  have hemitted : emitted noReward 10000000=noReward.premine+(10000000-1)*10000 :=
    emitted_idle hc rfl rfl (by decide)
  have hcur : curMoney id noReward 10000000=some 7320226392 := by decide +kernel
  have hmax : hushMaxMoney noReward=some 7320226392 := by decide +kernel
  refine ⟨hc,?_,?_⟩
  · intro m hm
    rw [hcur] at hm
    obtain rfl := Option.some.inj hm
    decide
  · rintro ⟨v,hv,hle⟩
    rw [hmax] at hv
    obtain rfl := Option.some.inj hv
    omega

end Bound

end Zdeex.Emission
