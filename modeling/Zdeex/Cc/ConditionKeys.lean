import Zdeex.Cc.ImportPayload

namespace Zdeex.Cc

open Zdeex.Framework
open Zdeex.Coins
open Zdeex.Block
open Zdeex.Crosschain

section Conditions

/-- The codes of a condition. -/
def CC.codes (cond : CC) : List (List UInt8) :=
  cond.nodes.filterMap fun
    | .eval code => some code
    | _ => none

def CC.publicKeys (cond : CC) : List (List UInt8) := cond.nodes.filterMap CC.publicKey?

theorem childNodes_keys (pks : List CPubKey) :
    CC.childNodes (pks.map .secp256k1)=pks.map .secp256k1 := by
  induction pks with
  | nil => rfl
  | cons pk pks ih => rw [List.map_cons,CC.childNodes,ih,CC.nodes,List.singleton_append]

theorem filterMap_codes_keys (pks : List CPubKey) :
    (pks.map CC.secp256k1).filterMap (fun
      | .eval code => some code
      | _ => none)=([] : List (List UInt8)) := by
  induction pks with
  | nil => rfl
  | cons pk pks ih => simp

theorem publicKeys_keys (pks : List CPubKey) :
    (pks.map CC.secp256k1).filterMap CC.publicKey?=pks := by
  induction pks with
  | nil => rfl
  | cons pk pks ih => simpa [CC.publicKey?] using ih

theorem codes_makeCCcond1 (e : UInt8) (pk : CPubKey) : (makeCCcond1 e pk).codes=[[e]] := rfl

theorem publicKeys_makeCCcond1 (e : UInt8) (pk : CPubKey) :
    (makeCCcond1 e pk).publicKeys=[pk] := rfl

/-- The codes of a token condition, as its outputs hold them. -/
def tokenCodes (e1 e2 : UInt8) : List (List UInt8) :=
  [e1]::((if e1≠EVAL_TOKENS then [[EVAL_TOKENS]] else [])++(if e2≠0 then [[e2]] else []))

theorem codes_makeTokensCond (e1 e2 : UInt8) (pks : List CPubKey) :
    (makeTokensCond e1 e2 pks).codes=tokenCodes e1 e2 := by
  have hsig := filterMap_codes_keys pks
  unfold makeTokensCond tokensEvals tokenCodes CC.codes
  split_ifs <;> simp [CC.nodes,CC.childNodes,sigCond,childNodes_keys,hsig]

theorem publicKeys_makeTokensCond (e1 e2 : UInt8) (pks : List CPubKey) :
    (makeTokensCond e1 e2 pks).publicKeys=pks := by
  have hkeys := publicKeys_keys pks
  unfold makeTokensCond tokensEvals CC.publicKeys
  split_ifs
  all_goals
    simp [CC.nodes,CC.childNodes,sigCond,childNodes_keys]
    exact hkeys

theorem tokens_mem_tokenCodes (e1 e2 : UInt8) : [EVAL_TOKENS]∈tokenCodes e1 e2 := by
  unfold tokenCodes
  by_cases h : e1=EVAL_TOKENS
  · rw [h]
    exact List.mem_cons_self ..
  · rw [if_pos h]
    exact List.mem_cons_of_mem _ (List.mem_append_left _ (List.mem_singleton_self _))

theorem any_isEval (cond : CC) (e : UInt8) :
    cond.nodes.any (CC.isEval e)=decide ([e]∈cond.codes) := by
  rw [Bool.eq_iff_iff,List.any_eq_true,decide_eq_true_eq,CC.codes,List.mem_filterMap]
  constructor
  · rintro ⟨node,hmem,heval⟩
    refine ⟨node,hmem,?_⟩
    cases node with
    | eval code => simpa [CC.isEval] using heval
    | secp256k1 pk => cases heval
    | threshold n cs => cases heval
    | prefixed c => cases heval
    | leaf => cases heval
  · rintro ⟨node,hmem,hcode⟩
    refine ⟨node,hmem,?_⟩
    cases node with
    | eval code =>
      obtain rfl : code=[e] := Option.some.inj hcode
      simp [CC.isEval]
    | secp256k1 pk => cases hcode
    | threshold n cs => cases hcode
    | prefixed c => cases hcode
    | leaf => cases hcode

theorem findSome_publicKey (cond : CC) :
    cond.nodes.findSome? CC.publicKey?=cond.publicKeys.head? := by
  rw [CC.publicKeys,List.head?_filterMap]

theorem pubkey2pk_valid {key : List UInt8} (h : pubkey2pk key≠[]) :
    pubkey2pk key=key ∧ ∀chHeader∈key.head?,key.length=pubKeyLen chHeader := by
  cases key with
  | nil => exact absurd rfl h
  | cons chHeader vch =>
    simp only [pubkey2pk] at h ⊢
    split_ifs at h ⊢ with hlen
    · refine ⟨rfl,fun c hc => ?_⟩
      obtain rfl := Option.some.inj hc
      rw [List.length_cons,hlen]
    · exact absurd rfl h

theorem isPubKey_pubkey2pk (key : List UInt8) : IsPubKey (pubkey2pk key) := by
  by_cases h : pubkey2pk key=[]
  · rw [h]
    intro c hc
    cases hc
  · obtain ⟨heq,hlen⟩ := pubkey2pk_valid h
    rw [heq]
    exact hlen

theorem pubkey2pk_pubkey2pk (key : List UInt8) : pubkey2pk (pubkey2pk key)=pubkey2pk key := by
  by_cases h : pubkey2pk key=[]
  · rw [h]
    rfl
  · rw [(pubkey2pk_valid h).1,(pubkey2pk_valid h).1]

/-- The conditions that outputs of these keys are compared with. -/
def TokenCond (keys : CPubKey → Prop) (cond : CC) : Prop :=
  (∃e pk,keys pk ∧ cond=makeCCcond1 e pk) ∨
    ∃e1 e2 pks,pks.length≤2 ∧ (∀pk∈pks,keys pk) ∧ cond=makeTokensCond e1 e2 pks

end Conditions

end Zdeex.Cc
