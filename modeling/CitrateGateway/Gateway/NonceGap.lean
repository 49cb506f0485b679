import CitrateGateway.Gateway.AccountNonce

/-!
# No reserved nonce is left behind

Every nonce below the counter is in the chain or with a call that is still under way, as long
as no call gives up between its reservation and the chain. A failed signature, and a failed
read of the pending count after a failed submission, leave the nonce behind.
-/

namespace Gateway.Signer
set_option autoImplicit false
open Words Effects X402

section Promise
variable {crypto : Crypto} {chainId : UInt64} {computePool : H160}

/-- A counter is set to a count that the call read, or stepped on from the guarded value. -/
def Counted (h : List Event) (e : Event) : Prop :=
  match e.1 with
  | .reserveNonce n => held h = some (some n) ∨ ⟨.ethGetTransactionCount, .ok n⟩ ∈ h
  | .resyncNonce n => ⟨.ethGetTransactionCount, .ok n⟩ ∈ h
  | _ => True

/-- How a call can end: it has reserved nothing, its last step made good for its nonce, or its
last step failed. -/
def Ended (h : List Event) : Prop :=
  match h with
  | ⟨.ethSendRawTransaction raw, .ok _⟩ :: past =>
    ∃ n, reservedNonce past = some n ∧ accountNonce raw = some n.toNat
  | ⟨.signHash _, .error _⟩ :: _ => True
  | ⟨.ethGetTransactionCount, .error _⟩ :: _ => True
  | ⟨.resyncNonce _, _⟩ :: _ => True
  | _ => reservedNonce h = none

variable {h : List Event}

theorem reserve_ends (hnone : reservedNonce h = none) :
    reserve.Meets AnyEvent Counted
      (fun h' r => match r with
        | .ok n => reservedNonce h' = some n
        | .error _ => Ended h') h := by
  refine Prog.meets_perform_bind.2 fun seeded _ => ⟨trivial, ?_⟩
  cases seeded with
  | some n => exact Prog.meets_perform_bind.2 fun _ _ => ⟨Or.inl rfl, rfl⟩
  | none =>
    refine Prog.meets_perform_bind.2 fun counted _ => ⟨trivial, ?_⟩
    cases counted with
    | error e => exact Prog.meets_perform_bind.2 fun _ _ => ⟨trivial, hnone⟩
    | ok n => exact Prog.meets_perform_bind.2 fun _ _ => ⟨Or.inr (by simp), rfl⟩

theorem submitSigned_ends {raw : Bytes} {n : UInt64} (hreserved : reservedNonce h = some n)
    (hnonce : accountNonce raw = some n.toNat) :
    (submitSigned raw).Meets AnyEvent Counted (fun h' _ => Ended h') h := by
  refine Prog.meets_perform_bind.2 fun answer _ => ⟨trivial, ?_⟩
  cases answer with
  | ok hash => exact ⟨n, hreserved, hnonce⟩
  | error e =>
    refine Prog.meets_perform_bind.2 fun counted _ => ⟨trivial, ?_⟩
    cases counted with
    | error e' => trivial
    | ok m =>
      simp only [resync, Prog.bind_assoc]
      refine Prog.meets_perform_bind.2 fun seeded _ => ⟨trivial, ?_⟩
      exact Prog.meets_perform_bind.2 fun _ _ => ⟨by simp [Counted], trivial⟩

theorem submitPoolTx_ends {what : String} {value : U256} {data : Bytes}
    (hdata : data.length < 2 ^ 64 - 1024) (hnone : reservedNonce h = none) :
    (submitPoolTx crypto chainId computePool what value data).Meets AnyEvent Counted
      (fun h' _ => Ended h') h := by
  refine Prog.Meets.bind (reserve_ends hnone) ?_
  intro h' reserved hpost
  cases reserved with
  | error e => exact hpost
  | ok n =>
    refine Prog.meets_perform_bind.2 fun gasPrice _ => ⟨trivial, ?_⟩
    simp only [signSettlementTxWith, Prog.bind_assoc]
    refine Prog.meets_perform_bind.2 fun signature _ => ⟨trivial, ?_⟩
    cases signature with
    | error e => trivial
    | ok sig => exact submitSigned_ends hpost (accountNonce_encodeSignedRlp _ _ _ _ hdata)

theorem call_ends (call : WalletCall) :
    ((wallet crypto chainId computePool).prog call).Meets AnyEvent Counted (fun h' _ => Ended h')
      [] := by
  cases call with
  | dispatchPoolCompute poolId jobSpec maxPrice payment =>
    refine Prog.meets_perform_bind.2 fun block _ => ⟨trivial, ?_⟩
    cases block with
    | error e => exact rfl
    | ok block =>
      refine Prog.meets_perform_bind.2 fun spent _ => ⟨trivial, ?_⟩
      cases spent with
      | error e => exact rfl
      | ok u =>
        exact submitPoolTx_ends (encodeRequestPoolCompute_length crypto poolId jobSpec maxPrice) rfl
  | reclaimExpiredJob jobId =>
    exact submitPoolTx_ends (encodeReclaimExpiredJob_length crypto jobId) rfl

def endContract : System.Contract (wallet crypto chainId computePool) where
  rely := AnyEvent
  guar := fun _ => Counted
  post := fun _ h _ => Ended h
  meets := call_ends

end Promise

section Gap
variable {crypto : Crypto} {chainId : UInt64} {computePool : H160}

/-- The chain has a transaction of the operator with the nonce. -/
def Chain.Carries (chain : Chain) (n : UInt64) : Prop :=
  n.toNat < chain.base ∨ n.toNat ∈ chain.accepted

instance (chain : Chain) (n : UInt64) : Decidable (chain.Carries n) :=
  inferInstanceAs (Decidable (_ ∨ _))

/-- The call is under way and has reserved the nonce. -/
def Holds (s : (wallet crypto chainId computePool).State) (t : Nat) (n : UInt64) : Prop :=
  s.running t = true ∧ reservedNonce (System.trace s.log t) = some n

/-- Every nonce that was ever reserved is in the chain, is with a call under way, or is still
ahead of the counter, which hands it out again. -/
def NoGap (s : (wallet crypto chainId computePool).State) : Prop :=
  ∀ t n, reservedNonce (System.trace s.log t) = some n →
    s.shared.chain.Carries n ∨ (∃ u, Holds s u n) ∨ ∃ c, s.shared.nonce = some c ∧ c ≤ n

/-- No call gives up a nonce that the chain does not have: every signature is made, every read
of the pending count after a failed submission is answered, and no call is dropped between its
reservation and the chain. -/
def CompensatedStep (s : (wallet crypto chainId computePool).State) :
    (wallet crypto chainId computePool).Action → Prop
  | .exec t c =>
    match s.tasks[t]? with
    | some ⟨_, some (.op (.signHash hash) _)⟩ =>
      (System.offered (E := WalletSig) (.signHash hash) c.event).all (·.isOk) = true
    | some ⟨_, some (.op .ethGetTransactionCount _)⟩ =>
      (∃ n ∈ reservedNonce (System.trace s.log t), ¬ s.shared.chain.Carries n) →
        (System.offered (E := WalletSig) .ethGetTransactionCount c.event).all (·.isOk) = true
    | _ => True
  | .drop t => ∀ n ∈ reservedNonce (System.trace s.log t), s.shared.chain.Carries n
  | _ => True

instance (s : (wallet crypto chainId computePool).State) :
    (a : (wallet crypto chainId computePool).Action) → Decidable (CompensatedStep s a)
  | .start _ => isTrue trivial
  | .exec t c => by
    dsimp only [CompensatedStep]
    generalize s.tasks[t]? = k
    rcases k with _ | ⟨j, _ | _ | ⟨o, k⟩⟩
    · exact isTrue trivial
    · exact isTrue trivial
    · exact isTrue trivial
    · cases o <;> infer_instance
  | .drop _ => Option.decidableForallMem (reservedNonce _)
  | .world _ => isTrue trivial

end Gap

section Step
variable {crypto : Crypto} {chainId : UInt64} {computePool : H160}
variable {s : (wallet crypto chainId computePool).State} {cap : SpendCap} {base : Nat}

theorem mem_of_contiguousFrom (accepted : List Nat) {fuel n m : Nat} (hle : n ≤ m)
    (hlt : m < contiguousFrom accepted fuel n) : m ∈ accepted := by
  induction fuel generalizing n with
  | zero => simp only [contiguousFrom] at hlt; omega
  | succ fuel ih =>
    simp only [contiguousFrom] at hlt
    split at hlt
    · rename_i hmem
      by_cases heq : m = n
      · rw [heq]
        exact hmem
      · exact ih (by omega) hlt
    · omega

theorem Chain.carries_of_lt_pendingCount {chain : Chain} {n : UInt64}
    (h : n.toNat < chain.pendingCount) : chain.Carries n := by
  by_cases hbase : n.toNat < chain.base
  · exact Or.inl hbase
  · exact Or.inr (mem_of_contiguousFrom _ (Nat.not_lt.1 hbase) h)

theorem Chain.Carries.accept {chain : Chain} {n : UInt64} (h : chain.Carries n) (raw : Bytes) :
    (chain.accept raw).Carries n := by
  unfold Chain.accept
  split
  · exact h.imp_right (List.mem_cons_of_mem _)
  · exact h

theorem carries_of_accept (chain : Chain) {raw : Bytes} {n : UInt64}
    (h : accountNonce raw = some n.toNat) : (chain.accept raw).Carries n := by
  rw [Chain.accept, h]
  exact Or.inr List.mem_cons_self

/-- The chain keeps what it has, whatever a call does. -/
theorem carries_handle {t : Nat} {o : Op} {a : o.Ans} {c : WalletInput} {st sh : WalletState}
    {n : UInt64} (hhandle : handle st t o c = some (a, sh)) (h : st.chain.Carries n) :
    sh.chain.Carries n := by
  cases o with
  | ethSendRawTransaction raw =>
    obtain ⟨_, _, heq⟩ := Option.map_eq_some_iff.1 hhandle
    cases heq
    split
    · exact h.accept raw
    · exact h
  | lockNonce =>
    obtain ⟨_, _, rfl⟩ := handle_lockNonce hhandle
    exact h
  | ethGetTransactionCount =>
    obtain ⟨rfl, -, -⟩ := handle_ethGetTransactionCount hhandle
    exact h
  | trySpend | unlockNonce | reserveNonce | resyncNonce =>
    cases hhandle
    exact h
  | ethBlockNumber | ethGasPrice | signHash =>
    obtain ⟨_, _, heq⟩ := Option.map_eq_some_iff.1 hhandle
    cases heq
    exact h

theorem nonce_of_handle {t : Nat} {o : Op} {a : o.Ans} {c : WalletInput} {st sh : WalletState}
    (hhandle : handle st t o c = some (a, sh))
    (hkeep : ∀ n, o ≠ .reserveNonce n ∧ o ≠ .resyncNonce n) : sh.nonce = st.nonce := by
  cases o with
  | lockNonce =>
    obtain ⟨_, _, rfl⟩ := handle_lockNonce hhandle
    rfl
  | unlockNonce =>
    cases hhandle
    rfl
  | reserveNonce n => exact absurd rfl (hkeep n).1
  | resyncNonce n => exact absurd rfl (hkeep n).2
  | _ => exact (handle_quiet rfl hhandle).2

@[simp] theorem leave_chain (st : WalletState) (t : Nat) : (leave st t).chain = st.chain := by
  unfold leave
  split <;> rfl

theorem advance_chain {t : Nat} {j : WalletCall} {o : Op} {k : o.Ans → M (Except GatewayError H256)}
    {a : o.Ans} {sh : WalletState} : (s.advance t j o k a sh).shared.chain = sh.chain := by
  simp only [System.State.advance, System.settle]
  split
  · exact leave_chain _ _
  · rfl

theorem reservedNonce_cons {o : Op} {a : o.Ans} (h : List Event) (hother : o.isReserve = false) :
    reservedNonce (⟨o, a⟩ :: h) = reservedNonce h := by
  cases o <;> first | rfl | simp [Op.isReserve] at hother

/-- What keeps the nonces together: below the counter nothing is missing. -/
structure GapInv (s : (wallet crypto chainId computePool).State) : Prop where
  below : ∀ c, s.shared.nonce = some c → ∀ n < c,
    s.shared.chain.Carries n ∨ ∃ u, Holds s u n
  counts : ∀ t (n : UInt64), ⟨.ethGetTransactionCount, .ok n⟩ ∈ System.trace s.log t → ∀ m < n,
    s.shared.chain.Carries m
  seeded : ∀ t n, reservedNonce (System.trace s.log t) = some n → ∃ c, s.shared.nonce = some c

theorem GapInv.noGap (h : GapInv s) : NoGap s := by
  intro t n hn
  obtain ⟨c, hc⟩ := h.seeded t n hn
  by_cases hlt : n < c
  · exact (h.below c hc n hlt).imp_right Or.inl
  · exact Or.inr (Or.inr ⟨c, hc, UInt64.not_lt.1 hlt⟩)

variable {t : Nat} {j : WalletCall} {o : Op} {k : o.Ans → M (Except GatewayError H256)}
variable {a : o.Ans} {sh : WalletState} {c : WalletInput}

/-- A nonce that a call holds stays with a call or goes to the chain when another step is made. -/
theorem Holds.advance {u : Nat} {n : UInt64} (hu : Holds s u n)
    (htask : s.tasks[t]? = some ⟨j, some (.op o k)⟩) (hother : u = t → o.isReserve = false)
    (hended : ∀ r, k a = .ret r → Ended (⟨o, a⟩ :: System.trace s.log t))
    (hhandle : handle s.shared t o c = some (a, sh)) (hok : CompensatedStep s (.exec t c))
    (hresync : ∀ m, o ≠ .resyncNonce m) :
    sh.chain.Carries n ∨ ∃ v, Holds (s.advance t j o k a sh) v n := by
  obtain ⟨hrunning, hreserved⟩ := hu
  by_cases hut : u = t
  · subst hut
    have ht := (List.getElem?_eq_some_iff.1 htask).1
    have hkeep := reservedNonce_cons (a := a) (System.trace s.log u) (hother rfl)
    cases hk : k a with
    | op o' k' =>
      refine Or.inr ⟨u, ?_, ?_⟩
      · exact System.running_of_task ((System.advance_task ht a sh).trans (by rw [hk]))
      · rw [System.trace_advance_self, hkeep, hreserved]
    | ret r =>
      refine Or.inl ?_
      have hend := hended r hk
      simp only [CompensatedStep, htask] at hok
      cases o with
      | ethSendRawTransaction raw =>
        obtain ⟨_, _, heq⟩ := Option.map_eq_some_iff.1 hhandle
        cases heq
        cases a with
        | ok hash =>
          obtain ⟨m, hm, hraw⟩ := hend
          rw [hreserved] at hm
          cases hm
          exact carries_of_accept _ hraw
        | error e => exact absurd (hkeep.symm.trans hend) (by rw [hreserved]; simp)
      | signHash hash =>
        obtain ⟨b, hb, heq⟩ := Option.map_eq_some_iff.1 hhandle
        cases heq
        cases a with
        | ok sig => exact absurd (hkeep.symm.trans hend) (by rw [hreserved]; simp)
        | error e =>
          have hall : (System.offered (E := WalletSig) (.signHash hash) c.event).all (·.isOk) =
            true := hok
          rw [hb] at hall
          cases hall
      | ethGetTransactionCount =>
        cases a with
        | ok m => exact absurd (hkeep.symm.trans hend) (by rw [hreserved]; simp)
        | error e =>
          by_contra hnot
          have hchain : ¬ s.shared.chain.Carries n := fun h => hnot (carries_handle hhandle h)
          have hall := hok ⟨n, hreserved, hchain⟩
          obtain ⟨-, hoffered, -⟩ := handle_ethGetTransactionCount hhandle
          rw [hoffered] at hall
          cases hall
      | resyncNonce m => exact absurd rfl (hresync m)
      | reserveNonce m => cases hother rfl
      | _ => exact absurd (hkeep.symm.trans hend) (by rw [hreserved]; simp)
  · refine Or.inr ⟨u, System.running_advance_of hrunning hut a sh, ?_⟩
    rw [System.trace_advance_ne s hut, hreserved]

theorem GapInv.advance (hI : GapInv s) (hlock : LockHeld s)
    (htask : s.tasks[t]? = some ⟨j, some (.op o k)⟩) (hduty : Duty (System.trace s.log t) ⟨o, a⟩)
    (hcounted : Counted (System.trace s.log t) ⟨o, a⟩)
    (hended : ∀ r, k a = .ret r → Ended (⟨o, a⟩ :: System.trace s.log t))
    (hhandle : handle s.shared t o c = some (a, sh)) (hok : CompensatedStep s (.exec t c)) :
    GapInv (s.advance t j o k a sh) := by
  have ht := (List.getElem?_eq_some_iff.1 htask).1
  have hmem : ∀ u e, e ∈ System.trace (s.advance t j o k a sh).log u →
      (u = t ∧ e = ⟨o, a⟩) ∨ e ∈ System.trace s.log u := by
    intro u e he
    by_cases hut : u = t
    · subst hut
      rw [System.trace_advance_self] at he
      exact (List.mem_cons.1 he).imp (⟨rfl, ·⟩) id
    · rw [System.trace_advance_ne s hut] at he
      exact Or.inr he
  refine ⟨?_, ?_, ?_⟩
  · intro b hb n hn
    rw [advance_nonce] at hb
    rw [advance_chain]
    cases o with
    | resyncNonce m =>
      cases hhandle
      obtain rfl := Option.some.inj hb
      exact Or.inl (hI.counts t m hcounted n hn)
    | reserveNonce m =>
      cases hhandle
      obtain rfl := Option.some.inj hb
      have hself : Holds (s.advance t j (.reserveNonce m) k () { s.shared with
          nonce := some (m + 1), holder := none }) t m := by
        refine ⟨?_, by rw [System.trace_advance_self]; rfl⟩
        cases hk : k () with
        | op o' k' => exact System.running_of_task ((System.advance_task ht _ _).trans (by rw [hk]))
        | ret r => cases hended r hk
      by_cases heq : n = m
      · exact Or.inr ⟨t, heq ▸ hself⟩
      have hlt : n < m := by
        have hle : n.toNat ≠ m.toNat := fun h => heq (UInt64.toNat_inj.1 h)
        rw [UInt64.lt_iff_toNat_lt, UInt64.toNat_add] at hn
        rw [UInt64.lt_iff_toNat_lt]
        simp only [UInt64.reduceToNat] at hn
        omega
      rcases hcounted with hheld | hread
      · have hcounter := (hlock t _ (System.running_of_task htask) hheld).2
        refine (hI.below m hcounter n hlt).imp_right fun ⟨u, hrunning, hreserved⟩ => ?_
        have hut : u ≠ t := by
          rintro rfl
          rw [reservedNonce_eq_none hduty.1] at hreserved
          cases hreserved
        refine ⟨u, System.running_advance_of hrunning hut _ _, ?_⟩
        rw [System.trace_advance_ne s hut, hreserved]
      · exact Or.inl (hI.counts t m hread n hlt)
    | _ =>
      rw [nonce_of_handle hhandle fun m => by simp] at hb
      rcases hI.below b hb n hn with hcarries | ⟨u, hu⟩
      · exact Or.inl (carries_handle hhandle hcarries)
      · exact hu.advance htask (fun _ => rfl) hended hhandle hok (fun m => by simp)
  · intro u n hcount m hm
    rw [advance_chain]
    rcases hmem u _ hcount with ⟨rfl, he⟩ | hold
    · cases he
      obtain ⟨rfl, -, hpending⟩ := handle_ethGetTransactionCount hhandle
      refine Chain.carries_of_lt_pendingCount ?_
      rw [← hpending _ rfl]
      exact UInt64.lt_iff_toNat_lt.1 hm
    · exact carries_handle hhandle (hI.counts u n hold m hm)
  · intro u n hn
    rw [advance_nonce]
    cases o with
    | resyncNonce m =>
      cases hhandle
      exact ⟨m, rfl⟩
    | reserveNonce m =>
      cases hhandle
      exact ⟨m + 1, rfl⟩
    | _ =>
      rw [nonce_of_handle hhandle fun m => by simp]
      by_cases hut : u = t
      · subst hut
        rw [System.trace_advance_self, reservedNonce_cons _ rfl] at hn
        exact hI.seeded u n hn
      · rw [System.trace_advance_ne s hut] at hn
        exact hI.seeded u n hn

end Step

section Run
variable {crypto : Crypto} {chainId : UInt64} {computePool : H160}
variable {s : (wallet crypto chainId computePool).State} {cap : SpendCap} {base : Nat}

theorem endContract_served (ok : (wallet crypto chainId computePool).State →
    (wallet crypto chainId computePool).Action → Prop) :
    (@endContract crypto chainId computePool).Served ok :=
  fun _ _ _ _ _ _ _ _ => trivial

theorem Holds.running_mono {s' : (wallet crypto chainId computePool).State} {t : Nat} {n : UInt64}
    (h : Holds s t n) (hrunning : s'.running t = true)
    (htrace : System.trace s'.log t = System.trace s.log t) : Holds s' t n :=
  ⟨hrunning, htrace ▸ h.2⟩

theorem gapInv_of_run (hrun : WalletRun crypto chainId computePool cap base CompensatedStep s) :
    GapInv s := by
  refine System.Reach.invariant GapInv hrun ?_ ?_
  · refine ⟨fun c hc => ?_, fun t n h => ?_, fun t n h => ?_⟩
    · simp [System.init, WalletState.fresh] at hc
    · simp [System.init] at h
    · simp [System.init, reservedNonce] at h
  intro s s' act hr hI hok hT
  have hr' : WalletRun crypto chainId computePool cap base CompensatedStep s' :=
    .step hr hok (System.step_of_transition hT)
  cases hT with
  | start j sh hstart =>
    cases hstart
    refine ⟨fun c hc n hn => ?_, hI.counts, hI.seeded⟩
    rcases hI.below c hc n hn with hcarries | ⟨u, hu⟩
    · exact Or.inl hcarries
    · exact Or.inr ⟨u, hu.running_mono (System.running_begin_of hu.1 _ _) rfl⟩
  | exec t c j o k a sh htask hhandle =>
    have hduty := (Prog.meets_op.1
      (System.Reach.meets contract (contract_served CompensatedStep) hr htask) a trivial).1
    have hcounted := (Prog.meets_op.1
      (System.Reach.meets endContract (endContract_served CompensatedStep) hr htask) a trivial).1
    refine hI.advance (lockHeld_of_run hr) htask hduty hcounted (fun r hk => ?_) hhandle hok
    have htask' := System.advance_task (k := k) (j := j) (List.getElem?_eq_some_iff.1 htask).1 a sh
    rw [hk] at htask'
    have hend := System.Reach.meets endContract (endContract_served CompensatedStep) hr' htask'
    rwa [System.trace_advance_self] at hend
  | drop t j o k htask =>
    refine ⟨fun c hc n hn => ?_, fun u n h m hm => ?_, fun u n h => ?_⟩
    · rw [show (s.dropped t j).shared.nonce = s.shared.nonce from leave_nonce _ _] at hc
      rw [show (s.dropped t j).shared.chain = s.shared.chain from leave_chain _ _]
      rcases hI.below c hc n hn with hcarries | ⟨u, hu⟩
      · exact Or.inl hcarries
      · by_cases hut : u = t
        · exact Or.inl (hok n (hut ▸ hu.2))
        · exact Or.inr ⟨u, hu.running_mono (System.running_dropped_of hu.1 hut) rfl⟩
    · rw [show (s.dropped t j).shared.chain = s.shared.chain from leave_chain _ _]
      exact hI.counts u n h m hm
    · rw [show (s.dropped t j).shared.nonce = s.shared.nonce from leave_nonce _ _]
      exact hI.seeded u n h
  | world w => cases w

/-- In a run in which every failure after a reservation is made good, no reserved nonce is
left behind. -/
theorem noGap_of_compensated
    (hrun : WalletRun crypto chainId computePool cap base CompensatedStep s) : NoGap s :=
  (gapInv_of_run hrun).noGap

end Run

section Sample

/-- The signer of call 0 fails; call 1 is accepted with the next nonce. -/
def unsignedTrace : List (Nat × Event) :=
  seedEvents.map (0, ·) ++
    [(0, ⟨.ethGasPrice, .ok 1000000000⟩),
      (0, ⟨.signHash (reclaimHash 1 0 1000000000), .error (.internal "kms sign: timeout")⟩)] ++
    (reserveEvents 1).map (1, ·) ++ (signEvents 2 1 1000000000).map (1, ·) ++
    [(1, sendEvent 2 1 1000000000 (.ok 0xb1))]

theorem compensated_of_resync :
    walletOutcome (fun s a => decide (CompensatedStep s a)) resyncTrace =
      some resyncTrace.reverse := by
  decide +kernel

theorem noGap_of_compensated_resync :
    ∃ s, WalletRun walletCrypto sampleChainId samplePool sampleCap 0 CompensatedStep s ∧
      s.log = resyncTrace.reverse ∧ NoGap s := by
  obtain ⟨s, hrun, hlog⟩ := run_of_outcome (fun _ _ h => of_decide_eq_true h) compensated_of_resync
  exact ⟨s, hrun, hlog, noGap_of_compensated hrun⟩

/-- What is left of the wallet after the run: whether a call still runs, the counter, and the
chain. -/
def unsignedOutcome : Option (List Bool × Option UInt64 × Nat × List Nat) :=
  ((sampleWallet.run (fun _ _ => true) (sampleWallet.init (WalletState.fresh sampleCap 0))
    (System.script [.reclaimExpiredJob 1, .reclaimExpiredJob 2]
      (unsignedTrace.map fun x => (x.1, ⟨x.2, false⟩)))).filter
        (·.log = unsignedTrace.reverse)).map fun s =>
          ((List.range s.tasks.length).map s.running, s.shared.nonce, s.shared.chain.base,
            s.shared.chain.accepted)

theorem unsigned_possible : unsignedOutcome = some ([false, false], some 2, 0, [1]) := by
  decide +kernel

/-- A failed signature leaves nonce 0 behind: both calls are over, the counter is at 2, and the
transaction with nonce 1 waits for one that no call will send. -/
theorem nonce_left_behind :
    ∃ s, WalletRun walletCrypto sampleChainId samplePool sampleCap 0 (fun _ _ => True) s ∧
      (∀ t, s.running t = false) ∧ s.shared.nonce = some 2 ∧ s.shared.chain.accepted = [1] ∧
      reservedNonce (System.trace s.log 0) = some 0 ∧ s.shared.chain.pendingCount = 0 ∧
      ¬ NoGap s := by
  obtain ⟨s, hfiltered, heq⟩ := Option.map_eq_some_iff.1 unsigned_possible
  obtain ⟨hs, hlog⟩ := Option.filter_eq_some_iff.1 hfiltered
  simp only [Prod.mk.injEq] at heq
  obtain ⟨hrunning, hnonce, hbase, haccepted⟩ := heq
  have hrun : WalletRun walletCrypto sampleChainId samplePool sampleCap 0 (fun _ _ => True) s :=
    .of_run (fun _ _ _ => trivial) hs
  have hover : ∀ t, s.running t = false := by
    intro t
    by_contra hne
    have ht := Bool.eq_true_of_not_eq_false hne
    have hmem : s.running t ∈ [false, false] := by
      rw [← hrunning]
      exact List.mem_map_of_mem (List.mem_range.2 (System.lt_of_running ht))
    simp [ht] at hmem
  have hreserved : reservedNonce (System.trace s.log 0) = some 0 := by
    rw [of_decide_eq_true hlog]
    decide +kernel
  refine ⟨s, hrun, hover, hnonce, haccepted, hreserved, ?_, ?_⟩
  · rw [Chain.pendingCount, haccepted, hbase]
    decide
  · intro hgap
    rcases hgap 0 0 hreserved with hcarries | ⟨u, hu⟩ | ⟨c, hc, hle⟩
    · simp [Chain.Carries, haccepted, hbase] at hcarries
    · cases (hover u).symm.trans hu.1
    · rw [hnonce] at hc
      cases hc
      exact absurd hle (by decide)

end Sample
end Gateway.Signer
