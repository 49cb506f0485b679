import CitrateGateway.Shared.AbiTuple
import CitrateGateway.Gateway.Signer

/-!
# Calldata of a pool dispatch

The bytes that the wallet submits are the contract ABI's encoding of the call, so the contract
reads exactly the pool, the job and the price that were dispatched.
-/

namespace Gateway.Signer
set_option autoImplicit false
open Words X402

section Encoding
variable (crypto : Crypto)

def requestPoolComputeSelector : Bytes :=
  (wordBytes 32 (crypto.keccak256 (utf8 "requestPoolCompute(uint256,bytes,uint256)"))).take 4

/-- The types of `poolId`, `jobSpec` and `maxPrice`. -/
def requestPoolComputeTypes : List Abi.Ty := [.word 256, .bytes, .word 256]

def requestPoolComputeArgs (poolId : U256) (jobSpec : Bytes) (maxPrice : U256) :
    Abi.Args requestPoolComputeTypes :=
  .cons (t := .word 256) poolId (.cons (t := .bytes) jobSpec
    (.cons (t := .word 256) maxPrice .nil))

variable (poolId : U256) (jobSpec : Slice) (maxPrice : U256)

theorem requestPoolComputeSelector_length : (requestPoolComputeSelector crypto).length = 4 := by
  simp [requestPoolComputeSelector]

theorem encodeArgs_requestPoolCompute (bytes : Bytes) :
    Abi.encodeArgs (requestPoolComputeArgs poolId bytes maxPrice) =
      wordBytes 32 poolId ++ (beBytes 32 0x60 ++ (wordBytes 32 maxPrice ++
        (beBytes 32 bytes.length ++ (bytes ++ List.replicate (Abi.padding bytes.length) 0)))) := by
  simp only [Abi.encodeArgs, requestPoolComputeArgs, Abi.parts, Abi.part, Abi.encodeParts,
    Abi.wordPart, Abi.bytesPart, Abi.heads, Abi.headsLength, Abi.tails, Abi.Part.tail,
    Abi.Part.headLength, Abi.bytesTail, List.map_cons, List.map_nil, List.sum_cons,
    List.sum_nil, List.flatMap_cons, List.flatMap_nil, List.append_assoc, List.nil_append,
    List.append_nil, beBytes_length, wordBytes, Nat.reduceAdd]

theorem encodeRequestPoolCompute_eq :
    encodeRequestPoolCompute crypto poolId jobSpec maxPrice =
      requestPoolComputeSelector crypto ++
        Abi.encodeArgs (requestPoolComputeArgs poolId jobSpec.bytes maxPrice) := by
  rw [encodeArgs_requestPoolCompute, encodeRequestPoolCompute, requestPoolComputeSelector,
    Abi.padding]
  simp only [List.append_assoc]

theorem encodeArgs_requestPoolCompute_length (bytes : Bytes) :
    (Abi.encodeArgs (requestPoolComputeArgs poolId bytes maxPrice)).length =
      128 + (bytes.length + Abi.padding bytes.length) := by
  rw [encodeArgs_requestPoolCompute]
  simp only [List.length_append, wordBytes_length, beBytes_length, List.length_replicate]
  omega

theorem decodeCall_requestPoolCompute :
    Abi.decodeCall (requestPoolComputeSelector crypto) requestPoolComputeTypes
        (encodeRequestPoolCompute crypto poolId jobSpec maxPrice) =
      some (requestPoolComputeArgs poolId jobSpec.bytes maxPrice) := by
  have hshort := jobSpec.short
  have hpad := Abi.padding_lt jobSpec.bytes.length
  have hfits : ∀ t ∈ requestPoolComputeTypes, t.Fits := by
    intro t ht
    simp only [requestPoolComputeTypes, List.mem_cons, List.not_mem_nil, or_false] at ht
    rcases ht with rfl | rfl | rfl
    · exact Nat.le_refl 256
    · trivial
    · exact Nat.le_refl 256
  rw [encodeRequestPoolCompute_eq]
  apply Abi.decodeCall_append _ hfits
  rw [encodeArgs_requestPoolCompute_length]
  omega

/-- The bytes after the job. -/
theorem encodeRequestPoolCompute_drop :
    (encodeRequestPoolCompute crypto poolId jobSpec maxPrice).drop
        (132 + jobSpec.bytes.length) =
      List.replicate (Abi.padding jobSpec.bytes.length) 0 := by
  have hsplit : encodeRequestPoolCompute crypto poolId jobSpec maxPrice =
      (requestPoolComputeSelector crypto ++ (wordBytes 32 poolId ++ (beBytes 32 0x60 ++
        (wordBytes 32 maxPrice ++ (beBytes 32 jobSpec.bytes.length ++ jobSpec.bytes))))) ++
          List.replicate (Abi.padding jobSpec.bytes.length) 0 := by
    rw [encodeRequestPoolCompute_eq, encodeArgs_requestPoolCompute]
    simp only [List.append_assoc]
  rw [hsplit]
  apply List.drop_left'
  simp only [List.length_append, wordBytes_length, beBytes_length,
    requestPoolComputeSelector_length]
  omega

end Encoding

section Exact
variable (crypto : Crypto)

theorem encodeRequestPoolCompute_mod (poolId : U256) (jobSpec : Slice) (maxPrice : U256) :
    (encodeRequestPoolCompute crypto poolId jobSpec maxPrice).length % 32 = 4 := by
  have hmod := Abi.add_padding_mod jobSpec.bytes.length
  rw [encodeRequestPoolCompute_eq, List.length_append, requestPoolComputeSelector_length,
    encodeArgs_requestPoolCompute_length]
  omega

theorem encodeRequestPoolCompute_inj {poolId poolId' : U256} {jobSpec jobSpec' : Slice}
    {maxPrice maxPrice' : U256}
    (h : encodeRequestPoolCompute crypto poolId jobSpec maxPrice =
      encodeRequestPoolCompute crypto poolId' jobSpec' maxPrice') :
    poolId = poolId' ∧ jobSpec.bytes = jobSpec'.bytes ∧ maxPrice = maxPrice' := by
  have hread := congrArg (Abi.decodeCall (requestPoolComputeSelector crypto)
    requestPoolComputeTypes) h
  rw [decodeCall_requestPoolCompute, decodeCall_requestPoolCompute, Option.some.injEq] at hread
  injection hread with _ _ hpool hrest
  injection hrest with _ _ hjob hrest
  injection hrest with _ _ hprice
  exact ⟨hpool, hjob, hprice⟩

/-- The contract reads the arguments that were written, at every length of the job; what is
appended to reach a whole number of words is zeros, and no two calls share their bytes. -/
theorem pool_calldata_exact (poolId : U256) (jobSpec : Slice) (maxPrice : U256) :
    Abi.decodeCall (requestPoolComputeSelector crypto) requestPoolComputeTypes
        (encodeRequestPoolCompute crypto poolId jobSpec maxPrice) =
      some (requestPoolComputeArgs poolId jobSpec.bytes maxPrice) ∧
    (encodeRequestPoolCompute crypto poolId jobSpec maxPrice).length % 32 = 4 ∧
    (∃ pad < 32, (encodeRequestPoolCompute crypto poolId jobSpec maxPrice).drop
      (132 + jobSpec.bytes.length) = List.replicate pad 0) ∧
    ∀ (poolId' : U256) (jobSpec' : Slice) (maxPrice' : U256),
      encodeRequestPoolCompute crypto poolId jobSpec maxPrice =
          encodeRequestPoolCompute crypto poolId' jobSpec' maxPrice' →
        poolId = poolId' ∧ jobSpec.bytes = jobSpec'.bytes ∧ maxPrice = maxPrice' := by
  refine ⟨decodeCall_requestPoolCompute crypto poolId jobSpec maxPrice,
    encodeRequestPoolCompute_mod crypto poolId jobSpec maxPrice, ?_, ?_⟩
  · exact ⟨_, Abi.padding_lt _, encodeRequestPoolCompute_drop crypto poolId jobSpec maxPrice⟩
  · intro poolId' jobSpec' maxPrice' h
    exact encodeRequestPoolCompute_inj crypto h

end Exact
end Gateway.Signer
