import Zdeex.Cc.Assets

namespace Zdeex.Cc.BidFill

open Zdeex.Block

/-- A request to fill a bid; the numbers are signed 64-bit ones. -/
structure Request where
  orig_nValue : Int
  paidunits : Int
  totalunits : Int
  orig_nonneg : 0≤orig_nValue
  orig_lt : orig_nValue<2^63
  paid_nonneg : 0≤paidunits
  paid_lt : paidunits<2^63
  total_nonneg : 0≤totalunits
  total_lt : totalunits<2^63

/-- What `SetBidFillamounts` hands out through its references. -/
structure Fillamounts where
  received_nValue : Int
  remaining_units : Int
  paidunits : Int
  deriving DecidableEq

def setBidFillamounts (q : Request) : Bool × Fillamounts :=
  if q.totalunits=0 then (false,⟨0,0,0⟩)
  else if q.paidunits≥q.totalunits then (true,⟨q.orig_nValue,0,q.totalunits⟩)
  else
    let remaining_units := toCAmount (q.totalunits-q.paidunits)
    let unitprice := q.orig_nValue.tdiv q.totalunits
    let received_nValue := toCAmount (q.paidunits*unitprice)
    let amounts : Fillamounts := ⟨received_nValue,remaining_units,q.paidunits⟩
    if unitprice>0 ∧ received_nValue>0 ∧ received_nValue≤q.orig_nValue then
      (validateBidRemainder remaining_units (toCAmount (q.orig_nValue-received_nValue))
        q.orig_nValue received_nValue q.paidunits q.totalunits,amounts)
    else (false,amounts)

/-- What is asked of amounts that are returned with success. -/
structure Agreed (q : Request) (amounts : Fillamounts) : Prop where
  accepted : validateBidRemainder amounts.remaining_units
    (toCAmount (q.orig_nValue-amounts.received_nValue)) q.orig_nValue amounts.received_nValue
    amounts.paidunits q.totalunits=true
  received_nonneg : 0≤amounts.received_nValue
  received_le : amounts.received_nValue≤q.orig_nValue
  units : amounts.remaining_units+amounts.paidunits=q.totalunits
  product : q.paidunits<q.totalunits →
    q.paidunits*q.orig_nValue.tdiv q.totalunits<2^63 ∧
      amounts.received_nValue=q.paidunits*q.orig_nValue.tdiv q.totalunits ∧
      amounts.remaining_units=q.totalunits-q.paidunits

/-- The amounts that are validated fit when they add up. -/
theorem validateRemainder_of_sums {remaining_units remaining_nValue received_nValue paidunits : Int}
    (hremaining : 0 ≤ remaining_units) (hvalue : 0 ≤ remaining_nValue) (hreceived : 0 < received_nValue)
    (hpaid : 0<paidunits) (hvalues : remaining_nValue+received_nValue<2^63)
    (hunits : remaining_units+paidunits<2^63) :
    validateRemainder remaining_units remaining_nValue (remaining_nValue+received_nValue)
      received_nValue paidunits (remaining_units+paidunits)=true := by
  unfold validateRemainder
  rw [toCAmount_of_bounds (by omega) hvalues,toCAmount_of_bounds (by omega) hunits]
  split_ifs with hzero
  · omega
  · omega
  · omega
  · rfl

/-- The price of a part of an order never exceeds the order. -/
theorem received_bounds (q : Request) (hpaid : q.paidunits<q.totalunits) :
    0≤q.paidunits*q.orig_nValue.tdiv q.totalunits ∧
      q.paidunits*q.orig_nValue.tdiv q.totalunits≤q.orig_nValue := by
  have hpaid0 := q.paid_nonneg
  rw [Int.tdiv_eq_ediv_of_nonneg q.orig_nonneg]
  have hprice : 0≤q.orig_nValue/q.totalunits :=
    Int.ediv_nonneg q.orig_nonneg q.total_nonneg
  have hpart : q.paidunits*(q.orig_nValue/q.totalunits)≤
      q.totalunits*(q.orig_nValue/q.totalunits) := Int.mul_le_mul_of_nonneg_right hpaid.le hprice
  have hround : q.totalunits*(q.orig_nValue/q.totalunits)≤q.orig_nValue :=
    Int.mul_ediv_self_le (by omega)
  exact ⟨Int.mul_nonneg hpaid0 hprice,hpart.trans hround⟩

/-- A part of an order that is filled is validated. -/
theorem agreed_of_part {q : Request} (hpaid : q.paidunits<q.totalunits)
    (h : (setBidFillamounts q).1=true) : Agreed q (setBidFillamounts q).2 := by
  have hpaid0 := q.paid_nonneg
  have horig := q.orig_lt
  have htotal := q.total_lt
  obtain ⟨hreceived0,hreceived⟩ := received_bounds q hpaid
  have hfits : toCAmount (q.paidunits*q.orig_nValue.tdiv q.totalunits)=
      q.paidunits*q.orig_nValue.tdiv q.totalunits :=
    toCAmount_of_bounds hreceived0 (by omega)
  have hunits : toCAmount (q.totalunits-q.paidunits)=q.totalunits-q.paidunits :=
    toCAmount_of_bounds (by omega) (by omega)
  unfold setBidFillamounts at h ⊢
  rw [if_neg (by omega),if_neg (by omega)] at h ⊢
  dsimp only at h ⊢
  rw [hfits,hunits] at h ⊢
  split_ifs at h ⊢ with hpositive
  have hsum : q.totalunits-q.paidunits+q.paidunits=q.totalunits := by omega
  exact ⟨h,hreceived0,hreceived,hsum,fun _ => ⟨by omega,rfl,rfl⟩⟩

/-- A whole order is validated unless it offers nothing. -/
theorem validate_whole {q : Request} (htotal : q.totalunits≠0) :
    validateBidRemainder 0 (toCAmount (q.orig_nValue-q.orig_nValue)) q.orig_nValue q.orig_nValue
      q.totalunits q.totalunits=true ↔ q.orig_nValue≠0 := by
  have horig0 := q.orig_nonneg
  have horig := q.orig_lt
  have htotal0 := q.total_nonneg
  have hlt := q.total_lt
  have hnothing : toCAmount (q.orig_nValue-q.orig_nValue)=0 := by
    rw [sub_self]
    rfl
  unfold validateBidRemainder
  rw [hnothing,Bool.and_eq_true,Bool.not_eq_true',decide_eq_false_iff_not]
  constructor
  · rintro ⟨h,-⟩ hzero
    rw [hzero] at h
    cases h
  · intro hne
    have h := validateRemainder_of_sums (le_refl (0 : Int)) (le_refl (0 : Int))
      (by omega : 0<q.orig_nValue) (by omega : 0<q.totalunits) (by omega) (by omega)
    rw [zero_add,zero_add] at h
    exact ⟨h,lt_irrefl _⟩

/-- Amounts that are returned with success pass their validator exactly when the order offers
coins or is not filled as a whole. -/
theorem setBidFillamounts_agrees_iff (q : Request) :
    ((setBidFillamounts q).1=true → Agreed q (setBidFillamounts q).2) ↔
      (q.orig_nValue≠0 ∨ q.paidunits<q.totalunits ∨ q.totalunits=0) := by
  by_cases htotal : q.totalunits=0
  · refine iff_of_true (fun h => ?_) (.inr (.inr htotal))
    rw [setBidFillamounts,if_pos htotal] at h
    cases h
  · rcases lt_or_ge q.paidunits q.totalunits with hpart | hwhole
    · exact iff_of_true (agreed_of_part hpart) (.inr (.inl hpart))
    · have hresult : setBidFillamounts q=(true,⟨q.orig_nValue,0,q.totalunits⟩) := by
        rw [setBidFillamounts,if_neg htotal,if_pos hwhole]
      rw [hresult]
      constructor
      · intro h
        exact .inl ((validate_whole htotal).mp (h rfl).accepted)
      · rintro (horig | hpart | hzero)
        · exact fun _ => ⟨(validate_whole htotal).mpr horig,q.orig_nonneg,le_refl _,
            zero_add _,fun hpart => by omega⟩
        · omega
        · exact absurd hzero htotal

def emptyOrder : Request :=
  ⟨0,5,5,by decide,by decide,by decide,by decide,by decide,by decide⟩

/-- A bid of nothing is filled as a whole, and the validator refuses it. -/
theorem empty_order_refused : (setBidFillamounts emptyOrder).1=true ∧
    ¬Agreed emptyOrder (setBidFillamounts emptyOrder).2 := by
  refine ⟨by decide,fun h => ?_⟩
  have haccepted := h.accepted
  revert haccepted
  decide

end Zdeex.Cc.BidFill
