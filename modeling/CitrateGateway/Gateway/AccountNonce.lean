import CitrateGateway.Gateway.Signer

/-!
# The operator nonce is handed out once

A resync that sets the counter below a nonce in flight, or below one that was accepted, lets
a later call reserve that nonce again. Every run without such a resync keeps the nonces of
its accepted transactions distinct.
-/

namespace Gateway.Signer
set_option autoImplicit false
open Words Effects X402

section Promise
variable {crypto : Crypto} {chainId : UInt64} {computePool : H160}

def Op.isReserve : Op → Bool
  | .reserveNonce _ => true
  | _ => false

def Op.isSend : Op → Bool
  | .ethSendRawTransaction _ => true
  | _ => false

/-- What a call read under the lock it holds now. -/
def held : List Event → Option (Option UInt64)
  | [] => none
  | ⟨.lockNonce, x⟩ :: _ => some x
  | ⟨.unlockNonce, _⟩ :: _ | ⟨.reserveNonce _, _⟩ :: _ | ⟨.resyncNonce _, _⟩ :: _ => none
  | _ :: h => held h

/-- A call reserves once, what it read under the lock if the manager was seeded, and submits
once, with the nonce it reserved. -/
def Duty (h : List Event) (e : Event) : Prop :=
  match e.1 with
  | .lockNonce => held h = none
  | .unlockNonce => (held h).isSome = true
  | .reserveNonce n =>
    h.countP (·.1.isReserve) = 0 ∧ ∃ x, held h = some x ∧ (x = some n ∨ x = none)
  | .resyncNonce _ => (held h).isSome = true
  | .ethSendRawTransaction raw =>
    h.countP (·.1.isSend) = 0 ∧
      ∃ n : UInt64, ⟨.reserveNonce n, ()⟩ ∈ h ∧ accountNonce raw = some n.toNat
  | _ => True

/-- The call holds no lock and has neither reserved nor submitted. -/
structure Idle (h : List Event) : Prop where
  free : held h = none
  reserves : h.countP (·.1.isReserve) = 0
  sends : h.countP (·.1.isSend) = 0

abbrev AnyEvent : Event → Prop := fun _ => True

variable {h : List Event}

theorem reserve_meets (hidle : Idle h) :
    reserve.Meets AnyEvent Duty
      (fun h' r => ∀ n, r = .ok n →
        held h' = none ∧ h'.countP (·.1.isSend) = 0 ∧ ⟨.reserveNonce n, ()⟩ ∈ h') h := by
  refine Prog.meets_perform_bind.2 fun seeded _ => ⟨hidle.free, ?_⟩
  have hreserves : (⟨.lockNonce, seeded⟩ :: h : List Event).countP (·.1.isReserve) = 0 := by
    simpa [Op.isReserve] using hidle.reserves
  have hsends : (⟨.lockNonce, seeded⟩ :: h : List Event).countP (·.1.isSend) = 0 := by
    simpa [Op.isSend] using hidle.sends
  cases seeded with
  | some n =>
    refine Prog.meets_perform_bind.2 fun _ _ => ⟨⟨hreserves, some n, rfl, Or.inl rfl⟩, ?_⟩
    intro m hm
    cases hm
    exact ⟨rfl, by simpa [Op.isSend] using hsends, by simp⟩
  | none =>
    refine Prog.meets_perform_bind.2 fun counted _ => ⟨trivial, ?_⟩
    cases counted with
    | error e =>
      refine Prog.meets_perform_bind.2 fun _ _ => ⟨rfl, ?_⟩
      intro m hm
      cases hm
    | ok n =>
      refine Prog.meets_perform_bind.2 fun _ _ => ⟨⟨?_, none, rfl, Or.inr rfl⟩, ?_⟩
      · simpa [Op.isReserve] using hreserves
      · intro m hm
        cases hm
        exact ⟨rfl, by simpa [Op.isSend] using hsends, by simp⟩

theorem submitSigned_meets {raw : Bytes} {n : UInt64} (hfree : held h = none)
    (hsends : h.countP (·.1.isSend) = 0) (hreserved : ⟨.reserveNonce n, ()⟩ ∈ h)
    (hnonce : accountNonce raw = some n.toNat) :
    (submitSigned raw).Meets AnyEvent Duty (fun _ _ => True) h := by
  refine Prog.meets_perform_bind.2 fun answer _ => ⟨⟨hsends, n, hreserved, hnonce⟩, ?_⟩
  cases answer with
  | ok hash => trivial
  | error e =>
    refine Prog.meets_perform_bind.2 fun counted _ => ⟨trivial, ?_⟩
    cases counted with
    | error e' => trivial
    | ok m =>
      simp only [resync, Prog.bind_assoc]
      refine Prog.meets_perform_bind.2 fun seeded _ => ⟨hfree, ?_⟩
      refine Prog.meets_perform_bind.2 fun _ _ => ⟨rfl, trivial⟩

theorem submitPoolTx_meets {what : String} {value : U256} {data : Bytes}
    (hdata : data.length < 2 ^ 64 - 1024) (hidle : Idle h) :
    (submitPoolTx crypto chainId computePool what value data).Meets AnyEvent Duty
      (fun _ _ => True) h := by
  refine Prog.Meets.bind (reserve_meets hidle) ?_
  intro h' reserved hpost
  cases reserved with
  | error e => trivial
  | ok n =>
    obtain ⟨hfree, hsends, hreserved⟩ := hpost n rfl
    refine Prog.meets_perform_bind.2 fun gasPrice _ => ⟨trivial, ?_⟩
    simp only [signSettlementTxWith, Prog.bind_assoc]
    refine Prog.meets_perform_bind.2 fun signature _ => ⟨trivial, ?_⟩
    cases signature with
    | error e => trivial
    | ok sig =>
      refine submitSigned_meets (n := n) hfree ?_ ?_ ?_
      · simpa [Op.isSend] using hsends
      · simp [hreserved]
      · exact accountNonce_encodeSignedRlp _ _ _ _ hdata

theorem call_meets (call : WalletCall) :
    ((wallet crypto chainId computePool).prog call).Meets AnyEvent Duty (fun _ _ => True) [] := by
  cases call with
  | dispatchPoolCompute poolId jobSpec maxPrice payment =>
    refine Prog.meets_perform_bind.2 fun block _ => ⟨trivial, ?_⟩
    cases block with
    | error e => trivial
    | ok block =>
      refine Prog.meets_perform_bind.2 fun spent _ => ⟨trivial, ?_⟩
      cases spent with
      | error e => trivial
      | ok u =>
        exact submitPoolTx_meets (encodeRequestPoolCompute_length crypto poolId jobSpec maxPrice)
          ⟨rfl, rfl, rfl⟩
  | reclaimExpiredJob jobId =>
    exact submitPoolTx_meets (encodeReclaimExpiredJob_length crypto jobId) ⟨rfl, rfl, rfl⟩

def contract : System.Contract (wallet crypto chainId computePool) where
  rely := AnyEvent
  guar := fun _ => Duty
  post := fun _ _ _ => True
  meets := call_meets

end Promise

section Live
variable {crypto : Crypto} {chainId : UInt64} {computePool : H160}

/-- The nonce a call reserved. -/
def reservedNonce : List Event → Option UInt64
  | [] => none
  | ⟨.reserveNonce n, _⟩ :: _ => some n
  | _ :: h => reservedNonce h

def isOkSend : Event → Bool
  | ⟨.ethSendRawTransaction _, .ok _⟩ => true
  | _ => false

/-- The nonce of a call whose submission was accepted, or is still to come. -/
def liveNonce (s : (wallet crypto chainId computePool).State) (t : Nat) : Option UInt64 :=
  let h := System.trace s.log t
  if h.any isOkSend || s.running t && h.countP (·.1.isSend) == 0 then reservedNonce h else none

/-- A resync goes above every live nonce, and no reservation wraps the counter. -/
def SafeStep (s : (wallet crypto chainId computePool).State) :
    (wallet crypto chainId computePool).Action → Prop
  | .exec t _ =>
    match s.tasks[t]? with
    | some ⟨_, some (.op (.resyncNonce n) _)⟩ =>
      ∀ u < s.tasks.length, (liveNonce s u).all (· < n) = true
    | some ⟨_, some (.op (.reserveNonce n) _)⟩ => n.toNat + 1 < 2 ^ 64
    | _ => True
  | _ => True

instance (s : (wallet crypto chainId computePool).State)
    (a : (wallet crypto chainId computePool).Action) : Decidable (SafeStep s a) := by
  unfold SafeStep
  split
  · split <;> infer_instance
  · infer_instance

/-- The runs of the calls of one wallet, from a fresh one, whose steps all pass `ok`. -/
abbrev WalletRun (crypto : Crypto) (chainId : UInt64) (computePool : H160) (cap : SpendCap)
    (base : Nat) (ok : (wallet crypto chainId computePool).State →
      (wallet crypto chainId computePool).Action → Prop) :=
  System.Reach (wallet crypto chainId computePool) ok
    ((wallet crypto chainId computePool).init (WalletState.fresh cap base))

theorem reservedNonce_of_mem {h : List Event} {n : UInt64} (hmem : ⟨.reserveNonce n, ()⟩ ∈ h)
    (hone : h.countP (·.1.isReserve) ≤ 1) : reservedNonce h = some n := by
  induction h with
  | nil => simp at hmem
  | cons e h ih =>
    obtain ⟨o, a⟩ := e
    cases o with
    | reserveNonce m =>
      rw [List.countP_cons_of_pos rfl] at hone
      rcases List.mem_cons.1 hmem with heq | hmem
      · cases heq
        rfl
      · have := List.countP_eq_zero.1 (Nat.le_zero.1 (Nat.le_of_lt_succ hone)) _ hmem
        simp [Op.isReserve] at this
    | _ =>
      rw [List.countP_cons_of_neg (by simp [Op.isReserve])] at hone
      exact ih (by simpa using hmem) hone

theorem reservedNonce_eq_none {h : List Event} (hnone : h.countP (·.1.isReserve) = 0) :
    reservedNonce h = none := by
  induction h with
  | nil => rfl
  | cons e h ih =>
    obtain ⟨o, a⟩ := e
    cases o with
    | reserveNonce m => simp [Op.isReserve] at hnone
    | _ =>
      rw [List.countP_cons_of_neg (by simp [Op.isReserve])] at hnone
      exact ih hnone

theorem any_isOkSend_eq_false {h : List Event} (hnone : h.countP (·.1.isSend) = 0) :
    h.any isOkSend = false := by
  rw [List.any_eq_false]
  rintro ⟨o, a⟩ hmem hok
  have := List.countP_eq_zero.1 hnone _ hmem
  cases o <;> simp [Op.isSend, isOkSend] at this hok

theorem liveNonce_eq_some {s : (wallet crypto chainId computePool).State} {t : Nat} {n : UInt64} :
    liveNonce s t = some n ↔
      ((System.trace s.log t).any isOkSend = true ∨
        s.running t = true ∧ (System.trace s.log t).countP (·.1.isSend) = 0) ∧
      reservedNonce (System.trace s.log t) = some n := by
  simp [liveNonce]

theorem liveNonce_mono {s s' : (wallet crypto chainId computePool).State} {t : Nat} {n : UInt64}
    (htrace : System.trace s'.log t = System.trace s.log t)
    (hrunning : s'.running t = true → s.running t = true) (h : liveNonce s' t = some n) :
    liveNonce s t = some n := by
  obtain ⟨hlive, hreserved⟩ := liveNonce_eq_some.1 h
  rw [htrace] at hlive hreserved
  exact liveNonce_eq_some.2 ⟨hlive.imp id (.imp hrunning id), hreserved⟩

end Live

section Step
variable {crypto : Crypto} {chainId : UInt64} {computePool : H160}
variable {s : (wallet crypto chainId computePool).State} {t u : Nat} {j : WalletCall} {o : Op}
variable {k : o.Ans → M (Except GatewayError H256)} {a : o.Ans} {sh : WalletState}

/-- The lock guards the counter, the counter is above every live nonce, and no two calls hold
the same one. -/
structure NonceOrder (s : (wallet crypto chainId computePool).State) : Prop where
  locked : ∀ t x, s.running t = true → held (System.trace s.log t) = some x →
    s.shared.holder = some t ∧ s.shared.nonce = x
  below : ∀ t n, liveNonce s t = some n → ∃ m, s.shared.nonce = some m ∧ n < m
  distinct : ∀ t u n, liveNonce s t = some n → liveNonce s u = some n → t = u

theorem NonceOrder.mono {s' : (wallet crypto chainId computePool).State} (h : NonceOrder s)
    (hlocked : ∀ t x, s'.running t = true → held (System.trace s'.log t) = some x →
      s'.shared.holder = some t ∧ s'.shared.nonce = x)
    (hnonce : s'.shared.nonce = s.shared.nonce)
    (hlive : ∀ t n, liveNonce s' t = some n → liveNonce s t = some n) : NonceOrder s' where
  locked := hlocked
  below t n hn := by
    rw [hnonce]
    exact h.below t n (hlive t n hn)
  distinct t u n ht hu := h.distinct t u n (hlive t n ht) (hlive u n hu)

@[simp] theorem leave_nonce (st : WalletState) (t : Nat) : (leave st t).nonce = st.nonce := by
  unfold leave
  split <;> rfl

theorem leave_holder {st : WalletState} (h : st.holder = some u) (hne : u ≠ t) :
    (leave st t).holder = some u := by
  rw [leave, if_neg (by rw [h]; simpa using hne), h]

theorem advance_nonce : (s.advance t j o k a sh).shared.nonce = sh.nonce := by
  simp only [System.State.advance, System.settle]
  split
  · exact leave_nonce _ _
  · rfl

theorem advance_holder (ht : t < s.tasks.length)
    (hrunning : (s.advance t j o k a sh).running u = true) (h : sh.holder = some u) :
    (s.advance t j o k a sh).shared.holder = some u := by
  simp only [System.State.advance, System.settle]
  split
  · rename_i r hr
    apply leave_holder h
    rintro rfl
    simp [System.State.running, System.State.advance, ht, hr] at hrunning
  · exact h

/-- A step that reserves nothing makes no nonce live. -/
theorem liveNonce_of_advance (htask : s.tasks[t]? = some ⟨j, some (.op o k)⟩)
    (hlt : ∀ e, (u, e) ∈ s.log → u < s.tasks.length) (hduty : Duty (System.trace s.log t) ⟨o, a⟩)
    (hnew : u = t → o.isReserve = false) {n : UInt64}
    (h : liveNonce (s.advance t j o k a sh) u = some n) : liveNonce s u = some n := by
  by_cases hu : u = t
  · subst hu
    obtain ⟨hlive, hreserved⟩ := liveNonce_eq_some.1 h
    simp only [System.State.advance, System.trace_cons_self] at hlive hreserved
    have hrunning := System.running_of_task htask
    refine liveNonce_eq_some.2 ⟨?_, ?_⟩
    · cases o with
      | ethSendRawTransaction raw => exact Or.inr ⟨hrunning, hduty.1⟩
      | _ =>
        simp only [List.any_cons, isOkSend, Bool.false_or] at hlive
        rw [List.countP_cons_of_neg (by simp [Op.isSend])] at hlive
        exact hlive.imp id fun h => ⟨hrunning, h.2⟩
    · cases o with
      | reserveNonce m => simp [Op.isReserve] at hnew
      | _ => exact hreserved
  · have htrace : System.trace (s.advance t j o k a sh).log u = System.trace s.log u :=
      System.trace_cons_ne (Ne.symm hu) _ _
    refine liveNonce_mono htrace (fun hr => ?_) h
    obtain ⟨_, hreserved⟩ := liveNonce_eq_some.1 h
    rw [htrace] at hreserved
    cases hh : System.trace s.log u with
    | nil => simp [hh, reservedNonce] at hreserved
    | cons e l =>
      have hmem : (u, e) ∈ s.log := System.mem_trace.1 (by simp [hh])
      exact System.running_of_advance (hlt e hmem) hu hr

def Op.isLockOp : Op → Bool
  | .lockNonce | .unlockNonce | .reserveNonce _ | .resyncNonce _ => true
  | _ => false

theorem handle_quiet {st : WalletState} {c : WalletInput} (hquiet : o.isLockOp = false)
    (h : handle st t o c = some (a, sh)) : sh.holder = st.holder ∧ sh.nonce = st.nonce := by
  cases o with
  | lockNonce | unlockNonce | reserveNonce n | resyncNonce n => simp [Op.isLockOp] at hquiet
  | trySpend amount block =>
    cases h
    exact ⟨rfl, rfl⟩
  | ethGetTransactionCount =>
    obtain ⟨rfl, -, -⟩ := handle_ethGetTransactionCount h
    exact ⟨rfl, rfl⟩
  | ethSendRawTransaction raw =>
    obtain ⟨_, _, heq⟩ := Option.map_eq_some_iff.1 h
    cases heq
    split <;> exact ⟨rfl, rfl⟩
  | ethBlockNumber | ethGasPrice | signHash hash =>
    obtain ⟨_, _, heq⟩ := Option.map_eq_some_iff.1 h
    cases heq
    exact ⟨rfl, rfl⟩

theorem held_cons_quiet {h : List Event} (hquiet : o.isLockOp = false) :
    held (⟨o, a⟩ :: h) = held h := by
  cases o <;> first | rfl | simp [Op.isLockOp] at hquiet

variable {c : WalletInput}

/-- The lock of the nonce manager guards what its holder read. -/
def LockHeld (s : (wallet crypto chainId computePool).State) : Prop :=
  ∀ t x, s.running t = true → held (System.trace s.log t) = some x →
    s.shared.holder = some t ∧ s.shared.nonce = x

theorem LockHeld.advance (hI : LockHeld s) (hlt : ∀ u e, (u, e) ∈ s.log → u < s.tasks.length)
    (htask : s.tasks[t]? = some ⟨j, some (.op o k)⟩) (hduty : Duty (System.trace s.log t) ⟨o, a⟩)
    (hhandle : handle s.shared t o c = some (a, sh)) : LockHeld (s.advance t j o k a sh) := by
  have ht := (List.getElem?_eq_some_iff.1 htask).1
  have hrunning := System.running_of_task htask
  have htrace : System.trace (s.advance t j o k a sh).log t = ⟨o, a⟩ :: System.trace s.log t :=
    System.trace_cons_self _ _ _
  -- what the other calls hold they held before
  have hothers : ∀ u x, u ≠ t → (s.advance t j o k a sh).running u = true →
      held (System.trace (s.advance t j o k a sh).log u) = some x →
      s.shared.holder = some u ∧ s.shared.nonce = x := by
    intro u x hu hr hheld
    rw [show System.trace (s.advance t j o k a sh).log u = System.trace s.log u from
      System.trace_cons_ne (Ne.symm hu) _ _] at hheld
    have hulen : u < s.tasks.length := by
      cases hh : System.trace s.log u with
      | nil => simp [hh, held] at hheld
      | cons e l => exact hlt u e (System.mem_trace.1 (by simp [hh]))
    exact hI u x (System.running_of_advance hulen hu hr) hheld
  -- a call that holds the lock excludes the others
  have hexcludes : (held (System.trace s.log t)).isSome = true →
      ∀ u x, (s.advance t j o k a sh).running u = true →
        held (System.trace (s.advance t j o k a sh).log u) = some x → u = t := by
    intro hheld u x hr hx
    by_contra hu
    obtain ⟨y, hy⟩ := Option.isSome_iff_exists.1 hheld
    have hu' := (hothers u x hu hr hx).1
    rw [(hI t y hrunning hy).1] at hu'
    exact hu (Option.some.inj hu').symm
  intro u x hr hx
  cases o with
  | lockNonce =>
    obtain ⟨hfree, rfl, rfl⟩ := handle_lockNonce hhandle
    by_cases hu : u = t
    · subst hu
      rw [htrace] at hx
      rw [advance_nonce]
      exact ⟨advance_holder ht hr rfl, Option.some.inj hx⟩
    · rw [hfree] at hothers
      exact absurd (hothers u x hu hr hx).1 (by simp)
  | unlockNonce =>
    obtain rfl := hexcludes hduty u x hr hx
    rw [htrace] at hx
    cases hx
  | resyncNonce n =>
    obtain rfl := hexcludes hduty u x hr hx
    rw [htrace] at hx
    cases hx
  | reserveNonce n =>
    obtain ⟨_, y, hy, _⟩ := hduty
    obtain rfl := hexcludes (by simp [hy]) u x hr hx
    rw [htrace] at hx
    cases hx
  | _ =>
    obtain ⟨hholder, hsame⟩ := handle_quiet rfl hhandle
    rw [advance_nonce, hsame]
    by_cases hu : u = t
    · subst hu
      rw [htrace, held_cons_quiet rfl] at hx
      obtain ⟨h₁, h₂⟩ := hI u x hrunning hx
      exact ⟨advance_holder ht hr (hholder.trans h₁), h₂⟩
    · obtain ⟨h₁, h₂⟩ := hothers u x hu hr hx
      exact ⟨advance_holder ht hr (hholder.trans h₁), h₂⟩

theorem NonceOrder.advance (hI : NonceOrder s) (hlt : ∀ u e, (u, e) ∈ s.log → u < s.tasks.length)
    (htask : s.tasks[t]? = some ⟨j, some (.op o k)⟩) (hduty : Duty (System.trace s.log t) ⟨o, a⟩)
    (hhandle : handle s.shared t o c = some (a, sh)) (hsafe : SafeStep s (.exec t c)) :
    NonceOrder (s.advance t j o k a sh) := by
  have hrunning := System.running_of_task htask
  have htrace : System.trace (s.advance t j o k a sh).log t = ⟨o, a⟩ :: System.trace s.log t :=
    System.trace_cons_self _ _ _
  have hlocked := LockHeld.advance hI.locked hlt htask hduty hhandle
  have hold : ∀ u n, o.isReserve = false → liveNonce (s.advance t j o k a sh) u = some n →
      liveNonce s u = some n :=
    fun u n hnew => liveNonce_of_advance htask (hlt u) hduty fun _ => hnew
  cases o with
  | lockNonce =>
    obtain ⟨_, rfl, rfl⟩ := handle_lockNonce hhandle
    exact hI.mono hlocked advance_nonce fun u n => hold u n rfl
  | unlockNonce =>
    cases hhandle
    exact hI.mono hlocked advance_nonce fun u n => hold u n rfl
  | resyncNonce n =>
    cases hhandle
    have hnonce : (s.advance t j (.resyncNonce n) k () { s.shared with
        nonce := some n, holder := none }).shared.nonce = some n := advance_nonce
    refine ⟨hlocked, ?_, fun u v m hu hv => hI.distinct u v m (hold u m rfl hu) (hold v m rfl hv)⟩
    intro u m hu
    have hlive := hold u m rfl hu
    have hulen : u < s.tasks.length := by
      cases hh : System.trace s.log u with
      | nil => simp [liveNonce, hh, reservedNonce] at hlive
      | cons e l => exact hlt u e (System.mem_trace.1 (by simp [hh]))
    simp only [SafeStep, htask] at hsafe
    refine ⟨n, hnonce, ?_⟩
    simpa [hlive] using hsafe u hulen
  | reserveNonce n =>
    cases hhandle
    have hnonce : (s.advance t j (.reserveNonce n) k () { s.shared with
        nonce := some (n + 1), holder := none }).shared.nonce = some (n + 1) := advance_nonce
    obtain ⟨hfresh, x, hx, hseed⟩ := hduty
    simp only [SafeStep, htask] at hsafe
    have hnext : n < n + 1 := by
      rw [UInt64.lt_iff_toNat_lt, UInt64.toNat_add]
      simp only [UInt64.reduceToNat]
      omega
    have hread := (hI.locked t x hrunning hx).2
    -- the live nonces of the other calls are below the reserved one
    have hbelow : ∀ u m, liveNonce s u = some m → m < n := by
      intro u m hu
      obtain ⟨b, hb, hm⟩ := hI.below u m hu
      rw [hread] at hb
      rcases hseed with rfl | rfl
      · cases hb
        exact hm
      · cases hb
    have hself : ∀ m, liveNonce (s.advance t j (.reserveNonce n) k () { s.shared with
        nonce := some (n + 1), holder := none }) t = some m → m = n := by
      intro m hm
      have := (liveNonce_eq_some.1 hm).2
      rw [htrace] at this
      exact (Option.some.inj this).symm
    have hother : ∀ u m, u ≠ t → liveNonce (s.advance t j (.reserveNonce n) k () { s.shared with
        nonce := some (n + 1), holder := none }) u = some m → liveNonce s u = some m :=
      fun u m hu => liveNonce_of_advance htask (hlt u) ⟨hfresh, x, hx, hseed⟩ fun h => absurd h hu
    refine ⟨hlocked, ?_, ?_⟩
    · intro u m hm
      refine ⟨n + 1, hnonce, ?_⟩
      by_cases hu : u = t
      · subst hu
        rw [hself m hm]
        exact hnext
      · exact UInt64.lt_trans (hbelow u m (hother u m hu hm)) hnext
    · intro u v m hu hv
      by_cases hut : u = t <;> by_cases hvt : v = t
      · rw [hut, hvt]
      · subst hut
        have := hbelow v m (hother v m hvt hv)
        rw [hself m hu] at this
        exact absurd this (UInt64.lt_irrefl n)
      · subst hvt
        have := hbelow u m (hother u m hut hu)
        rw [hself m hv] at this
        exact absurd this (UInt64.lt_irrefl n)
      · exact hI.distinct u v m (hother u m hut hu) (hother v m hvt hv)
  | _ =>
    obtain ⟨_, hsame⟩ := handle_quiet rfl hhandle
    exact hI.mono hlocked (advance_nonce.trans hsame) fun u n => hold u n rfl

end Step

section Run
variable {crypto : Crypto} {chainId : UInt64} {computePool : H160}
variable {s : (wallet crypto chainId computePool).State} {cap : SpendCap} {base : Nat}

theorem contract_served (ok : (wallet crypto chainId computePool).State →
    (wallet crypto chainId computePool).Action → Prop) :
    (@contract crypto chainId computePool).Served ok :=
  fun _ _ _ _ _ _ _ _ => trivial

theorem lockHeld_of_run {ok} (hrun : WalletRun crypto chainId computePool cap base ok s) :
    LockHeld s := by
  refine System.Reach.invariant LockHeld hrun ?_ ?_
  · intro t x hr _
    simp [System.State.running, System.init] at hr
  intro s s' act hr hI hok hT
  cases hT with
  | start j sh hstart =>
    cases hstart
    intro u x hu hx
    refine hI u x (hr.running_begin hu fun hnil => ?_) hx
    simp [System.State.begin, hnil, held] at hx
  | exec t c j o k a sh htask hhandle =>
    have hduty := (Prog.meets_op.1
      (System.Reach.meets contract (contract_served ok) hr htask) a trivial).1
    exact hI.advance (fun u e => hr.log_lt) htask hduty hhandle
  | drop t j o k htask =>
    intro u x hu hx
    obtain ⟨hne, hold⟩ := System.running_of_dropped hu
    obtain ⟨hholder, hnonce⟩ := hI u x hold hx
    exact ⟨leave_holder hholder hne, (leave_nonce _ _).trans hnonce⟩
  | world w => cases w

theorem nonceOrder_of_run (hrun : WalletRun crypto chainId computePool cap base SafeStep s) :
    NonceOrder s := by
  refine System.Reach.invariant NonceOrder hrun ?_ ?_
  · refine ⟨lockHeld_of_run (.refl : WalletRun crypto chainId computePool cap base SafeStep _), fun t n hn => ?_, fun t u n hn _ => ?_⟩
    · simp [liveNonce, System.init, reservedNonce] at hn
    · simp [liveNonce, System.init, reservedNonce] at hn
  intro s s' act hr hI hok hT
  have hlocked : LockHeld s' := lockHeld_of_run (.step hr hok (System.step_of_transition hT))
  cases hT with
  | start j sh hstart =>
    cases hstart
    refine hI.mono hlocked rfl fun u n hn => ?_
    have hne : System.trace s.log u ≠ [] := by
      intro hnil
      simp [liveNonce, System.State.begin, hnil, reservedNonce] at hn
    exact liveNonce_mono (by rfl) (fun hu => hr.running_begin hu hne) hn
  | exec t c j o k a sh htask hhandle =>
    have hduty := (Prog.meets_op.1
      (System.Reach.meets contract (contract_served SafeStep) hr htask) a trivial).1
    exact hI.advance (fun u e => hr.log_lt) htask hduty hhandle hok
  | drop t j o k htask =>
    exact hI.mono hlocked (leave_nonce _ _)
      fun u n hn => liveNonce_mono (by rfl) (fun h => (System.running_of_dropped h).2) hn
  | world w => cases w

/-- No two accepted submissions carry the same account nonce. -/
def NoncesDistinct (log : List (Nat × Event)) : Prop :=
  ∀ late t raw hash early, log = late ++ (t, ⟨.ethSendRawTransaction raw, .ok hash⟩) :: early →
    ∀ u raw' hash', (u, (⟨.ethSendRawTransaction raw', .ok hash'⟩ : Event)) ∈ early →
      accountNonce raw ≠ accountNonce raw'

/-- A task reserves at most once. -/
theorem reserves_le_one {ok} (hrun : WalletRun crypto chainId computePool cap base ok s)
    (t : Nat) : (System.trace s.log t).countP (·.1.isReserve) ≤ 1 := by
  apply System.countP_le_one
  intro late e early htrace he
  obtain ⟨_, early', hlog, rfl⟩ := System.trace_split htrace
  obtain ⟨_, _, _, hduty⟩ := System.Reach.guar contract (contract_served ok) hrun hlog
  obtain ⟨o, a⟩ := e
  cases o with
  | reserveNonce n => exact hduty.1
  | _ => simp [Op.isReserve] at he

/-- A submission carries the nonce its task reserved, and is the only one of its task. -/
theorem send_spec {ok} (hrun : WalletRun crypto chainId computePool cap base ok s) {t : Nat}
    {raw : Bytes} {answer : Except GatewayError H256} {late early : List (Nat × Event)}
    (hlog : s.log = late ++ (t, ⟨.ethSendRawTransaction raw, answer⟩) :: early) :
    (System.trace early t).countP (·.1.isSend) = 0 ∧
      ∃ n : UInt64, reservedNonce (System.trace s.log t) = some n ∧
        accountNonce raw = some n.toNat := by
  obtain ⟨_, _, _, hnone, n, hmem, hnonce⟩ :=
    System.Reach.guar contract (contract_served ok) hrun hlog
  have hmem' : ⟨.reserveNonce n, ()⟩ ∈ System.trace s.log t := by
    rw [System.mem_trace] at hmem ⊢
    rw [hlog]
    simp [hmem]
  exact ⟨hnone, n, reservedNonce_of_mem hmem' (reserves_le_one hrun t), hnonce⟩

/-- In a run without a resync below a live nonce, accepted submissions never share one. -/
theorem noncesDistinct_of_safe (hrun : WalletRun crypto chainId computePool cap base SafeStep s) :
    NoncesDistinct s.log := by
  intro late t raw hash early hlog u raw' hash' hmem heq
  obtain ⟨late', early', hearly⟩ := List.append_of_mem hmem
  have hlog' : s.log = (late ++ (t, ⟨.ethSendRawTransaction raw, .ok hash⟩) :: late') ++
      (u, ⟨.ethSendRawTransaction raw', .ok hash'⟩) :: early' := by
    rw [hlog, hearly]
    simp
  obtain ⟨hnone, n, hreserved, hnonce⟩ := send_spec hrun hlog
  obtain ⟨_, m, hreserved', hnonce'⟩ := send_spec hrun hlog'
  have hlive : ∀ v raw hash, (v, (⟨.ethSendRawTransaction raw, .ok hash⟩ : Event)) ∈
      s.log → ∀ n, reservedNonce (System.trace s.log v) = some n → liveNonce s v = some n := by
    intro v raw hash hv n hn
    refine liveNonce_eq_some.2 ⟨Or.inl ?_, hn⟩
    exact List.any_eq_true.2 ⟨_, System.mem_trace.2 hv, rfl⟩
  have hnm : n = m := by
    rw [hnonce, hnonce', Option.some.injEq] at heq
    exact UInt64.toNat_inj.1 heq
  subst hnm
  have htu := (nonceOrder_of_run hrun).distinct t u n
    (hlive t raw hash (by simp [hlog]) n hreserved)
    (hlive u raw' hash' (by simp [hlog']) n hreserved')
  subst htu
  have := List.countP_eq_zero.1 hnone _ (System.mem_trace.2 hmem)
  simp [Op.isSend] at this

end Run

section Sample

/-- The Keccak-256 digests of the reclaim signature and of the transactions below. -/
def walletDigests : List ((Nat × Nat) × H256) :=
  [((26, 33069), 0x9d4cfb5307528871322dae9f12c90a323796b0bb8c87bcb0802d8caefdb3e5d6),
   ((76, 32879), 0x83e642eb049b5e6b9c48534195071f18d2174f982874a1393d5c0cde6afb8c11),
   ((76, 57782), 0x8f942a8ab33c574c0698e5aa237cb8a8d5b4c7662a2322555c0aab5da003e5f3),
   ((76, 17037), 0x21dbd6df13b3e479ef3e35481f4614edeeae5b07f39061d9f967b9bb324d4268),
   ((76, 4139), 0x697e2cb2c22843e26e1ce232c4e7dc30760a253499498dadeedbbc11ca01d3b1)]

/-- The operator's signatures of the transactions below. -/
def walletSignatures : List (H256 × UInt8 × H256 × H256) :=
  [(0x83e642eb049b5e6b9c48534195071f18d2174f982874a1393d5c0cde6afb8c11, 1,
     0x53a06ac84da9a3d94ea519b1cb953bf9d65f974b0265ddb7b288dbca80db8b34,
     0x2e670836abd9f00d5ed7774bde06afddabaddf0deff980d6d883680983be4bd7),
   (0x8f942a8ab33c574c0698e5aa237cb8a8d5b4c7662a2322555c0aab5da003e5f3, 1,
     0x01904364624d9b6404ad96ab8165c5e0a30d59e45bb17b13b8a97841d518d983,
     0x54f2edfdec13a88f4f87f88d92732ae5cae6d7cc201c1ae911dd80545dd3addb),
   (0x21dbd6df13b3e479ef3e35481f4614edeeae5b07f39061d9f967b9bb324d4268, 1,
     0x28f9445a99972ebe176f45e160c6367692ff06cf1043f85502034967cbb501b5,
     0x6db7b77d589c0cd2db66a262e15be62f67e6a791a3c71be64580ce3e930bada9),
   (0x697e2cb2c22843e26e1ce232c4e7dc30760a253499498dadeedbbc11ca01d3b1, 0,
     0xfde8f4bcc6a10a968daa032f790549037ab4c963c462f58bf9ca09b33464fd2a,
     0x545ea4fca1d79af113c2a9f56cd4d82b89cfb6ab4396e7abb7e7dd058f54bc64)]

def walletCrypto : Crypto where
  keccak256 := knownDigest walletDigests
  base64Decode := fun _ => .error "Invalid padding"
  signingKey := fun _ => .ok ()
  signPrehash := fun _ sighash => .ok ((walletSignatures.lookup sighash).getD (0, 1, 1))

def sampleChainId : UInt64 := 40204

def samplePool : H160 := 0x4444444444444444444444444444444444444444

abbrev sampleWallet := wallet walletCrypto sampleChainId samplePool

def sampleCap : SpendCap := .new 1000000000000000000 300

def reclaimTx (jobId : U256) (nonce gasPrice : UInt64) : SettlementTx :=
  poolTx sampleChainId samplePool nonce gasPrice 0 (encodeReclaimExpiredJob walletCrypto jobId)

def reclaimHash (jobId : U256) (nonce gasPrice : UInt64) : H256 :=
  walletCrypto.keccak256 (encodeUnsignedRlp (reclaimTx jobId nonce gasPrice))

def reclaimSignature (jobId : U256) (nonce gasPrice : UInt64) : UInt8 × H256 × H256 :=
  (walletSignatures.lookup (reclaimHash jobId nonce gasPrice)).getD (0, 1, 1)

def reclaimRaw (jobId : U256) (nonce gasPrice : UInt64) : Bytes :=
  let (recoveryId, r, s) := reclaimSignature jobId nonce gasPrice
  encodeSignedRlp (reclaimTx jobId nonce gasPrice)
    (sampleChainId * 2 + 35 + recoveryId.toUInt64) r s

def seedEvents : List Event :=
  [⟨.lockNonce, none⟩, ⟨.ethGetTransactionCount, .ok 0⟩, ⟨.reserveNonce 0, ()⟩]

def reserveEvents (n : UInt64) : List Event := [⟨.lockNonce, some n⟩, ⟨.reserveNonce n, ()⟩]

def signEvents (jobId : U256) (nonce gasPrice : UInt64) : List Event :=
  [⟨.ethGasPrice, .ok gasPrice⟩,
    ⟨.signHash (reclaimHash jobId nonce gasPrice), .ok (reclaimSignature jobId nonce gasPrice)⟩]

def sendEvent (jobId : U256) (nonce gasPrice : UInt64) (answer : Except GatewayError H256) :
    Event :=
  ⟨.ethSendRawTransaction (reclaimRaw jobId nonce gasPrice), answer⟩

def lostEvents (jobId : U256) (seeded : UInt64) : List Event :=
  [sendEvent jobId 0 1000000000 (.error (.internal "chain: connection reset")),
    ⟨.ethGetTransactionCount, .ok 0⟩, ⟨.lockNonce, some seeded⟩, ⟨.resyncNonce 0, ()⟩]

/-- Call 0 fails and resyncs to 0 after call 1 was accepted with nonce 1, which call 3 then
reserves again. -/
def rewindTrace : List (Nat × Event) :=
  seedEvents.map (0, ·) ++ (reserveEvents 1).map (1, ·) ++
    (signEvents 2 1 1000000000).map (1, ·) ++ [(1, sendEvent 2 1 1000000000 (.ok 0xb1))] ++
    (signEvents 1 0 1000000000).map (0, ·) ++ (lostEvents 1 2).map (0, ·) ++
    (reserveEvents 0).map (2, ·) ++ (reserveEvents 1).map (3, ·) ++
    (signEvents 4 1 2000000000).map (3, ·) ++ [(3, sendEvent 4 1 2000000000 (.ok 0xd1))] ++
    (signEvents 3 0 1000000000).map (2, ·) ++ [(2, sendEvent 3 0 1000000000 (.ok 0xc0))]

/-- Call 0 fails and resyncs while no other call holds a nonce. -/
def resyncTrace : List (Nat × Event) :=
  seedEvents.map (0, ·) ++ (signEvents 1 0 1000000000).map (0, ·) ++
    (lostEvents 1 1).map (0, ·) ++ (reserveEvents 0).map (2, ·) ++
    (reserveEvents 1).map (1, ·) ++ (signEvents 2 1 1000000000).map (1, ·) ++
    [(1, sendEvent 2 1 1000000000 (.ok 0xb1))] ++ (signEvents 3 0 1000000000).map (2, ·) ++
    [(2, sendEvent 3 0 1000000000 (.ok 0xc0))]

def walletOutcome (check : sampleWallet.State → sampleWallet.Action → Bool)
    (events : List (Nat × Event)) : Option (List (Nat × Event)) :=
  (sampleWallet.run check (sampleWallet.init (WalletState.fresh sampleCap 0))
    (System.script [.reclaimExpiredJob 1, .reclaimExpiredJob 2, .reclaimExpiredJob 3,
      .reclaimExpiredJob 4] (events.map fun x => (x.1, ⟨x.2, false⟩)))).map System.State.log

theorem run_of_outcome {ok : sampleWallet.State → sampleWallet.Action → Prop}
    {check : sampleWallet.State → sampleWallet.Action → Bool} {events : List (Nat × Event)}
    (hok : ∀ s a, check s a = true → ok s a) (h : walletOutcome check events = some events.reverse) :
    ∃ s, WalletRun walletCrypto sampleChainId samplePool sampleCap 0 ok s ∧
      s.log = events.reverse := by
  obtain ⟨s, hs, hlog⟩ := Option.map_eq_some_iff.1 h
  exact ⟨s, .of_run hok hs, hlog⟩

theorem resync_safe :
    walletOutcome (fun s a => decide (SafeStep s a)) resyncTrace = some resyncTrace.reverse := by
  decide +kernel

theorem rewind_possible :
    walletOutcome (fun _ _ => true) rewindTrace = some rewindTrace.reverse := by
  decide +kernel

theorem noncesDistinct_of_safe_resync :
    ∃ s, WalletRun walletCrypto sampleChainId samplePool sampleCap 0 SafeStep s ∧
      s.log = resyncTrace.reverse ∧ NoncesDistinct s.log := by
  obtain ⟨s, hrun, hlog⟩ := run_of_outcome (fun _ _ h => of_decide_eq_true h) resync_safe
  exact ⟨s, hrun, hlog, noncesDistinct_of_safe hrun⟩

/-- Two accepted submissions with nonce 1, after a resync below the first of them. -/
theorem nonce_reused :
    ∃ s, WalletRun walletCrypto sampleChainId samplePool sampleCap 0 (fun _ _ => True) s ∧
      (1, (sendEvent 2 1 1000000000 (.ok 0xb1))) ∈ s.log ∧
      (3, (sendEvent 4 1 2000000000 (.ok 0xd1))) ∈ s.log ∧
      accountNonce (reclaimRaw 2 1 1000000000) = some 1 ∧
      accountNonce (reclaimRaw 4 1 2000000000) = some 1 ∧ ¬ NoncesDistinct s.log := by
  obtain ⟨s, hrun, hlog⟩ := run_of_outcome (fun _ _ _ => trivial) rewind_possible
  have hone : accountNonce (reclaimRaw 2 1 1000000000) = some 1 := by decide +kernel
  have hone' : accountNonce (reclaimRaw 4 1 2000000000) = some 1 := by decide +kernel
  have hin : ∀ x ∈ rewindTrace, x ∈ s.log := fun x hx => by
    rw [hlog]
    exact List.mem_reverse.2 hx
  refine ⟨s, hrun, hin _ (by simp [rewindTrace]), hin _ (by simp [rewindTrace]), hone, hone', ?_⟩
  intro hdistinct
  have hsplit : s.log = (rewindTrace.drop 21).reverse ++
      (3, sendEvent 4 1 2000000000 (.ok 0xd1)) :: (rewindTrace.take 20).reverse := by
    rw [hlog]
    rfl
  refine hdistinct _ _ _ _ _ hsplit 1 (reclaimRaw 2 1 1000000000) 0xb1 ?_ (hone'.trans hone.symm)
  rw [List.mem_reverse]
  simp [rewindTrace, seedEvents, reserveEvents, signEvents, sendEvent]

end Sample

end Gateway.Signer
