import CitrateGateway.Gateway.Conservation
import CitrateGateway.Gateway.Keyless
import CitrateGateway.Gateway.Node
import CitrateGateway.X402.SettleServe

/-!
# What a failed request gives back to a model budget

A request takes its quote from a model budget at most once, and gives the same amount back when
it fails. The ledger of a budget starts anew whenever the budget is set: what is left of it,
with everything taken since, is what was set with everything given back since. It stays below
what was set as long as no budget is set between a debit and the refund of the same request.
-/

namespace Gateway.App
set_option autoImplicit false
open Words Effects X402
open ApiKeyStore (Backend budgetSet budgetTaken budgetGiven Moved)

section Requests
variable {config : AppConfig} {α : Type}

/-- What a task has done to model budgets, newest first. -/
def moves (past : List Event) : List Event := past.filter (·.1.isBudgetMove)

/-- A task debits a budget before it does anything else to one, and refunds only that debit. -/
def BudgetDuty (past : List Event) : Event → Prop
  | ⟨.keys (.debitModelBudget _ _ _), _⟩ => moves past = []
  | ⟨.keys (.refundModelBudget keyId model amount), _⟩ =>
    moves past = [⟨.keys (.debitModelBudget keyId model amount), .ok ()⟩]
  | _ => True

/-- Nothing was taken from a budget, or what was taken was given back. -/
inductive Undone : List Event → Prop where
  | untouched : Undone []
  | refused (keyId model : String) (amount : U256) (e : ModelBudgetError) :
      Undone [⟨.keys (.debitModelBudget keyId model amount), .error e⟩]
  | refunded (keyId model : String) (amount : U256) :
      Undone [⟨.keys (.refundModelBudget keyId model amount), ()⟩,
        ⟨.keys (.debitModelBudget keyId model amount), .ok ()⟩]

theorem moves_cons_quiet {e : Event} (he : e.1.isBudgetMove = false) (past : List Event) :
    moves (e :: past) = moves past := by
  simp [moves, he]

theorem moves_cons_move {e : Event} (he : e.1.isBudgetMove = true) (past : List Event) :
    moves (e :: past) = e :: moves past := by
  simp [moves, he]

theorem budgetDuty_of_quiet {e : Event} (he : e.1.isBudgetMove = false) (past : List Event) :
    BudgetDuty past e := by
  obtain ⟨o, a⟩ := e
  cases o with
  | keys c => cases c <;> trivial
  | _ => trivial

/-- The judgement for the budgets: any answer is relied upon. -/
abbrev Dutiful (post : List Event → α → Prop) (p : M α) (past : List Event) : Prop :=
  p.Meets (fun _ => True) BudgetDuty post past

theorem MovesNoBudget.dutiful {p : M α} (hp : MovesNoBudget p) (past : List Event) :
    Dutiful (fun past' _ => moves past' = moves past) p past :=
  (hp.frame (fun past' _ he => budgetDuty_of_quiet he past') past).mono fun _ _ h => h.1

/-- A program that moves no budget, then one that starts from the same moves. -/
theorem MovesNoBudget.then {β : Type} {p : M β} {f : β → M α} {post : List Event → α → Prop}
    {past : List Event} (hp : MovesNoBudget p)
    (hf : ∀ past' b, moves past' = moves past → Dutiful post (f b) past') :
    Dutiful post (p >>= f) past :=
  (hp.dutiful past).bind hf

theorem dutiful_quiet {o : Op} {k : o.Ans → M α} {post : List Event → α → Prop}
    {past : List Event} (ho : o.isBudgetMove = false)
    (hk : ∀ a past', moves past' = moves past → Dutiful post (k a) past') :
    Dutiful post (.op o k) past :=
  Prog.meets_op.2 fun a _ => ⟨budgetDuty_of_quiet (e := ⟨o, a⟩) ho past,
    hk a _ (moves_cons_quiet (e := ⟨o, a⟩) ho past)⟩

/-- What a charge that was accepted has done to the budgets. -/
def Accepted (apiKey : Option ApiKeyContext) (req : ChatCompletionRequest) (past : List Event)
    (charge : ChatCharge) : Prop :=
  if charge.modelDebited then
    ∃ ctx cost, apiKey = some ctx ∧ charge.accepted = some cost ∧
      moves past = [⟨.keys (.debitModelBudget ctx.keyId req.model cost), .ok ()⟩]
  else Undone (moves past)

theorem acceptCharge_dutiful (apiKey : Option ApiKeyContext) (paid : Option X402Paid)
    (req : ChatCompletionRequest) {past : List Event} (hpast : moves past = []) :
    Dutiful (fun past' r => match r with
      | .error _ => Undone (moves past')
      | .ok charge => Accepted apiKey req past' charge) (acceptCharge config apiKey paid req)
      past := by
  have huntouched : ∀ {past' : List Event}, moves past' = moves past → Undone (moves past') := by
    intro past' h
    rw [h, hpast]
    exact .untouched
  cases paid with
  | none => exact huntouched rfl
  | some pay =>
    refine (outward_quoteChatRequestCost req).keyless.movesNoBudget.then fun past' quoted hquoted => ?_
    cases quoted with
    | error e => exact huntouched hquoted
    | ok quoted =>
      obtain ⟨cost, tokens⟩ := quoted
      simp only
      split
      · exact huntouched hquoted
      · cases apiKey with
        | none => exact huntouched hquoted
        | some ctx =>
          have hnone : moves past' = [] := hquoted.trans hpast
          refine Prog.meets_op.2 fun answer _ => ⟨hnone, ?_⟩
          have hdebit : moves (⟨.keys (.debitModelBudget ctx.keyId req.model cost), answer⟩ ::
              past') = [⟨.keys (.debitModelBudget ctx.keyId req.model cost), answer⟩] := by
            rw [moves_cons_move rfl, hnone]
          match answer, hdebit with
          | .ok (), hdebit => exact ⟨ctx, cost, rfl, rfl, hdebit⟩
          | .error (.exceeded remaining), hdebit =>
            show Undone (moves _)
            rw [hdebit]
            exact .refused _ _ _ _
          | .error (.store msg), hdebit =>
            show Undone (moves _)
            rw [hdebit]
            exact .refused _ _ _ _
          | .error (.crypt e), hdebit =>
            show Undone (moves _)
            rw [hdebit]
            exact .refused _ _ _ _

theorem refundModel_dutiful {apiKey : Option ApiKeyContext} {req : ChatCompletionRequest}
    {charge : ChatCharge} {past : List Event} (hpast : Accepted apiKey req past charge) :
    Dutiful (fun past' _ => Undone (moves past')) (refundModel apiKey req charge) past := by
  obtain ⟨accepted, modelDebited⟩ := charge
  cases modelDebited with
  | false => exact hpast
  | true =>
    obtain ⟨ctx, cost, rfl, rfl, hmoves⟩ := hpast
    refine Prog.meets_op.2 fun _ _ => ⟨hmoves, ?_⟩
    show Undone (moves _)
    rw [moves_cons_move rfl, hmoves]
    exact .refunded _ _ _

theorem chatCompletionsHandler_dutiful (apiKey : Option ApiKeyContext) (paid : Option X402Paid)
    (req : ChatCompletionRequest) {past : List Event} (hpast : moves past = []) :
    Dutiful (fun past' r => ∀ e, r = .error e → Undone (moves past'))
      (chatCompletionsHandler config apiKey paid req) past := by
  unfold chatCompletionsHandler
  split
  · intro e _
    rw [hpast]
    exact .untouched
  refine (acceptCharge_dutiful apiKey paid _ hpast).bind fun past' charged hcharged => ?_
  cases charged with
  | error e => exact fun _ _ => hcharged
  | ok charge =>
    refine (outward_runDispatch _).keyless.movesNoBudget.then fun past'' result hsame => ?_
    have haccepted : Accepted apiKey (clamped config req) past'' charge := by
      unfold Accepted at hcharged ⊢
      rw [hsame]
      exact hcharged
    cases result with
    | error e =>
      refine (refundModel_dutiful haccepted).bind fun past''' _ hundone => ?_
      exact fun _ _ => hundone
    | ok d =>
      have husage : MovesNoBudget (emitUsage apiKey charge d) :=
        (keyless_emitUsage _ _ _).movesNoBudget
      have hreply : MovesNoBudget (chatReply (clamped config req) d) :=
        (outward_chatReply _ _).keyless.movesNoBudget
      refine husage.then fun _ _ _ => hreply.then fun _ _ _ => ?_
      exact fun e he => by cases he

theorem routeService_dutiful (fwd : Forwarded) {past : List Event} (hpast : moves past = []) :
    Dutiful (fun past' r => r.isSuccess = false → Undone (moves past'))
      (routeService config fwd) past := by
  have hrespond : ∀ (r : Response) {past' : List Event},
      (r.isSuccess = false → Undone (moves past')) →
        Dutiful (fun past'' r => r.isSuccess = false → Undone (moves past'')) (respond r) past' := by
    intro r past' hr
    refine dutiful_quiet rfl fun _ past'' hsame hfailed => ?_
    rw [hsame]
    exact hr hfailed
  have hidle : ∀ {past' : List Event}, moves past' = moves past → Undone (moves past') := by
    intro past' h
    rw [h, hpast]
    exact .untouched
  have hserved : ∀ {past' : List Event} {handled : Handled},
      (∀ e, handled = .error e → Undone (moves past')) →
        (Handled.response handled).isSuccess = false → Undone (moves past') := by
    intro past' handled hundone hfailed
    cases handled with
    | error e => exact hundone e rfl
    | ok r => cases hfailed
  refine (outward_readBody fwd).keyless.movesNoBudget.then fun past₁ read hread => ?_
  cases read with
  | error e => exact hrespond _ fun _ => hidle hread
  | ok bytes =>
    simp only
    split
    · split
      · exact hrespond _ fun _ => hidle hread
      · refine dutiful_quiet rfl fun _ past₂ hsame => ?_
        refine (chatCompletionsHandler_dutiful _ _ _ (hsame.trans (hread.trans hpast))).bind ?_
        exact fun past₃ handled hundone => hrespond _ (hserved hundone)
    · split
      · exact hrespond _ fun _ => hidle hread
      · split
        · exact hrespond _ fun _ => hidle hread
        · refine dutiful_quiet rfl fun _ past₂ hsame => ?_
          refine (keyless_submitBatchHandler _ _ _).movesNoBudget.then fun past₃ handled h₃ => ?_
          exact hrespond _ fun _ => hidle (h₃.trans (hsame.trans hread))

/-- A request that its caller sees fail. -/
def failed : Except String Response → Bool
  | .error _ => true
  | .ok r => !r.isSuccess

theorem settleApiKeyResponse_dutiful (keyId : String) (debited : U256) (r : Response)
    (past : List Event) :
    Dutiful (fun past' r' => moves past' = moves past ∧ r' = r)
      (settleApiKeyResponse keyId debited r) past := by
  unfold settleApiKeyResponse
  split
  · split
    · split
      · exact dutiful_quiet rfl fun _ _ hsame => ⟨hsame, rfl⟩
      · exact ⟨rfl, rfl⟩
    · exact ⟨rfl, rfl⟩
  · exact dutiful_quiet rfl fun _ _ hsame => ⟨hsame, rfl⟩

theorem funded_dutiful (fwd : Forwarded) (keyId : String) (record : ApiKeyRecord) (price : U256)
    {past : List Event} (hpast : moves past = []) :
    Dutiful (fun past' r => failed r = true → Undone (moves past'))
      (funded (x402Service config) fwd keyId record price) past := by
  unfold funded
  simp only [x402Service_of_paid, Option.isSome_some]
  rw [Prog.bind_assoc]
  refine (routeService_dutiful _ hpast).bind fun past' r hr => ?_
  refine (settleApiKeyResponse_dutiful keyId price r past').bind fun past'' r' h => ?_
  obtain ⟨hmoves, rfl⟩ := h
  intro hfailed
  rw [hmoves]
  exact hr (by simpa [failed] using hfailed)

theorem handleRequest_dutiful (req : Request) :
    Dutiful (fun past r => failed r = true → Undone (moves past)) (handleRequest config req) [] := by
  have hidle : ∀ {past : List Event}, moves past = [] → Undone (moves past) := by
    intro past h
    rw [h]
    exact .untouched
  have hinner : ∀ {fwd : Forwarded} {past : List Event}, fwd.key = none → moves past = [] →
      Dutiful (fun past' _ => Undone (moves past')) (x402Service config fwd) past := by
    intro fwd past hkey hpast
    refine ((keyless_x402Service hkey).movesNoBudget.dutiful past).mono fun past' _ hsame => ?_
    exact hidle (hsame.trans hpast)
  have hexhausted : ∀ {fwd : Forwarded} {past : List Event} (deposit : H160), fwd.key = none →
      moves past = [] → Dutiful (fun past' r => failed r = true → Undone (moves past'))
        (exhausted (x402Service config) fwd deposit) past := by
    intro fwd past deposit hkey hpast
    refine (hinner hkey hpast).bind fun past' r hundone => ?_
    cases r <;> exact fun _ => hundone
  unfold handleRequest apiKeyService
  split
  · exact (hinner rfl rfl).mono fun _ _ hundone _ => hundone
  refine dutiful_quiet rfl fun found past₁ h₁ => ?_
  cases found with
  | none => exact fun _ => hidle h₁
  | some record =>
    simp only [Prog.bind]
    split
    · exact fun _ => hidle h₁
    refine dutiful_quiet rfl fun read past₂ h₂ => ?_
    cases read with
    | error e => exact fun _ => hidle (h₂.trans h₁)
    | ok body =>
      refine (outward_priceFor body).keyless.movesNoBudget.then fun past₃ priced h₃ => ?_
      have hnone : moves past₃ = [] := h₃.trans (h₂.trans h₁)
      cases priced with
      | error e => exact fun _ => hidle hnone
      | ok price =>
        simp only
        split
        · exact hexhausted _ rfl hnone
        · refine dutiful_quiet rfl fun debited past₄ h₄ => ?_
          cases debited with
          | ok b => exact funded_dutiful _ _ _ _ (h₄.trans hnone)
          | error e => exact hexhausted _ rfl (h₄.trans hnone)

theorem Job.prog_dutiful (j : Job) :
    Dutiful (fun past outcome => ∀ r, outcome = .answered r → failed r = true →
      Undone (moves past)) (j.prog config) [] := by
  have hquiet : ∀ {p : M Outcome}, MovesNoBudget p → Dutiful (fun past outcome =>
      ∀ r, outcome = .answered r → failed r = true → Undone (moves past)) p [] := by
    intro p hp
    refine (hp.dutiful []).mono fun past _ hsame r _ _ => ?_
    rw [hsame]
    exact .untouched
  cases j with
  | request req =>
    refine (handleRequest_dutiful req).bind fun past r hr => ?_
    rintro r' heq
    cases heq
    exact hr
  | processBatch id => exact hquiet ((movesNoBudget_processBatch id).bind fun _ => .ret _)
  | recover => exact hquiet (movesNoBudget_recover.bind fun _ => .ret _)
  | _ => exact hquiet (.op (fun _ => rfl) fun _ => .ret _)

def budgetContract (config : AppConfig) : System.Contract (node config) where
  rely _ := True
  guar _ := BudgetDuty
  post _ past outcome := ∀ r, outcome = .answered r → failed r = true → Undone (moves past)
  meets := Job.prog_dutiful

theorem budgetContract_served (ok : (node config).State → (node config).Action → Prop) :
    (budgetContract config).Served ok := fun _ _ _ _ _ _ _ _ => trivial

/-- What a dutiful task can have done to the budgets. -/
theorem moves_of_kept {past : List Event} (h : System.Kept BudgetDuty past) :
    moves past = [] ∨ (∃ keyId model amount a,
      moves past = [⟨.keys (.debitModelBudget keyId model amount), a⟩]) ∨ Undone (moves past) := by
  induction past with
  | nil => exact Or.inl rfl
  | cons e past ih =>
    obtain ⟨hduty, hkept⟩ := h
    cases he : e.1.isBudgetMove with
    | false =>
      rw [moves_cons_quiet he]
      exact ih hkept
    | true =>
      rw [moves_cons_move he]
      obtain ⟨o, a⟩ := e
      cases o with
      | keys c =>
        cases c with
        | debitModelBudget keyId model amount =>
          rw [show moves past = [] from hduty]
          exact Or.inr (Or.inl ⟨keyId, model, amount, a, rfl⟩)
        | refundModelBudget keyId model amount =>
          rw [show moves past = _ from hduty]
          exact Or.inr (Or.inr (.refunded _ _ _))
        | _ => cases he
      | _ => cases he

end Requests

section Ledger
variable (hashKeyId : String → String) (h model : String)

abbrev Log := List (Nat × Event)

/-- The budget of one key and model that an operation set. -/
def setIn : Event → Option U256
  | ⟨.keys c, a⟩ => budgetSet hashKeyId h model ⟨c, a⟩
  | _ => none

def takenIn : Event → Nat
  | ⟨.keys c, a⟩ => budgetTaken hashKeyId h model ⟨c, a⟩
  | _ => 0

def givenIn : Event → Nat
  | ⟨.keys c, a⟩ => budgetGiven hashKeyId h model ⟨c, a⟩
  | _ => 0

/-- What the budget was last set to. -/
def lastSet (log : Log) : Option U256 := log.findSome? fun x => setIn hashKeyId h model x.2

/-- What happened since the budget was last set. -/
def sinceSet (log : Log) : Log := log.takeWhile fun x => (setIn hashKeyId h model x.2).isNone

def taken (past : List Event) : Nat := (past.map (takenIn hashKeyId h model)).sum

def given (past : List Event) : Nat := (past.map (givenIn hashKeyId h model)).sum

/-- What all tasks together took from the budget since it was last set. -/
def takenSince (log : Log) : Nat :=
  ((sinceSet hashKeyId h model log).map fun x => takenIn hashKeyId h model x.2).sum

def givenSince (log : Log) : Nat :=
  ((sinceSet hashKeyId h model log).map fun x => givenIn hashKeyId h model x.2).sum

/-- What a task did since the budget was last set. -/
def since (log : Log) (t : Nat) : List Event := System.trace (sinceSet hashKeyId h model log) t

/-- Since the budget was set a task did nothing to it, or everything it ever did. -/
def Whole (log : Log) (t : Nat) : Prop :=
  (given hashKeyId h model (since hashKeyId h model log t) = 0 ∧
    taken hashKeyId h model (since hashKeyId h model log t) = 0) ∨
  (given hashKeyId h model (since hashKeyId h model log t) =
      given hashKeyId h model (System.trace log t) ∧
    taken hashKeyId h model (since hashKeyId h model log t) =
      taken hashKeyId h model (System.trace log t))

end Ledger

section Entries
variable {hashKeyId : String → String} {h model : String} {log : Log} {t : Nat} {e : Event}

theorem lastSet_cons_set {B : U256} (he : setIn hashKeyId h model e = some B) :
    lastSet hashKeyId h model ((t, e) :: log) = some B := by
  simp [lastSet, he]

theorem sinceSet_cons_set {B : U256} (he : setIn hashKeyId h model e = some B) :
    sinceSet hashKeyId h model ((t, e) :: log) = [] := by
  simp [sinceSet, he]

theorem lastSet_cons_other (he : setIn hashKeyId h model e = none) :
    lastSet hashKeyId h model ((t, e) :: log) = lastSet hashKeyId h model log := by
  simp [lastSet, he]

theorem sinceSet_cons_other (he : setIn hashKeyId h model e = none) :
    sinceSet hashKeyId h model ((t, e) :: log) = (t, e) :: sinceSet hashKeyId h model log := by
  simp [sinceSet, he]

/-- A budget is taken from and given back to by moves only. -/
theorem quiet_of_not_move (he : e.1.isBudgetMove = false) :
    takenIn hashKeyId h model e = 0 ∧ givenIn hashKeyId h model e = 0 := by
  obtain ⟨o, a⟩ := e
  cases o with
  | keys c => cases c <;> first | exact ⟨rfl, rfl⟩ | cases he
  | _ => exact ⟨rfl, rfl⟩

theorem taken_eq_moves (past : List Event) :
    taken hashKeyId h model past = taken hashKeyId h model (moves past) := by
  induction past with
  | nil => rfl
  | cons e past ih =>
    simp only [taken, List.map_cons, List.sum_cons] at ih ⊢
    cases he : e.1.isBudgetMove with
    | false => rw [moves_cons_quiet he, (quiet_of_not_move he).1, Nat.zero_add, ih]
    | true => rw [moves_cons_move he, List.map_cons, List.sum_cons, ih]

theorem given_eq_moves (past : List Event) :
    given hashKeyId h model past = given hashKeyId h model (moves past) := by
  induction past with
  | nil => rfl
  | cons e past ih =>
    simp only [given, List.map_cons, List.sum_cons] at ih ⊢
    cases he : e.1.isBudgetMove with
    | false => rw [moves_cons_quiet he, (quiet_of_not_move he).2, Nat.zero_add, ih]
    | true => rw [moves_cons_move he, List.map_cons, List.sum_cons, ih]

theorem given_eq_taken_of_undone {past : List Event} (hpast : Undone (moves past)) :
    given hashKeyId h model past = taken hashKeyId h model past := by
  rw [given_eq_moves, taken_eq_moves]
  generalize moves past = l at hpast
  cases hpast with
  | untouched => rfl
  | refused => rfl
  | refunded keyId m amount => simp [given, taken, givenIn, takenIn, budgetGiven, budgetTaken]

theorem given_le_taken_of_kept {past : List Event} (hpast : System.Kept BudgetDuty past) :
    given hashKeyId h model past ≤ taken hashKeyId h model past := by
  rcases moves_of_kept hpast with hmoves | ⟨keyId, m, amount, a, hmoves⟩ | hundone
  · rw [given_eq_moves, hmoves]
    exact Nat.zero_le _
  · rw [given_eq_moves, hmoves]
    exact Nat.zero_le _
  · exact (given_eq_taken_of_undone hundone).le

theorem taken_or_given_eq_zero (hashKeyId : String → String) (h model : String) (e : Event) :
    takenIn hashKeyId h model e = 0 ∨ givenIn hashKeyId h model e = 0 := by
  obtain ⟨o, a⟩ := e
  cases o with
  | keys c => cases c <;> first | exact Or.inl rfl | exact Or.inr rfl
  | _ => exact Or.inl rfl

theorem refund_of_given (hpos : 0 < givenIn hashKeyId h model e) :
    ∃ keyId amount, e.1 = .keys (.refundModelBudget keyId model amount) ∧ hashKeyId keyId = h := by
  obtain ⟨o, a⟩ := e
  cases o with
  | keys c =>
    cases c with
    | refundModelBudget keyId m amount =>
      simp only [givenIn, budgetGiven] at hpos
      split at hpos
      · rename_i hrow
        exact ⟨keyId, amount, by rw [hrow.2], hrow.1⟩
      · cases hpos
    | _ => cases hpos
  | _ => cases hpos

theorem given_cons (e : Event) (past : List Event) :
    given hashKeyId h model (e :: past) =
      givenIn hashKeyId h model e + given hashKeyId h model past := rfl

theorem taken_cons (e : Event) (past : List Event) :
    taken hashKeyId h model (e :: past) =
      takenIn hashKeyId h model e + taken hashKeyId h model past := rfl

theorem taken_pos {past : List Event} (he : e ∈ past) (hpos : 0 < takenIn hashKeyId h model e) :
    0 < taken hashKeyId h model past := by
  have hle : takenIn hashKeyId h model e ≤ taken hashKeyId h model past :=
    List.single_le_sum (by simp) _ (List.mem_map_of_mem he)
  omega

theorem Whole.set {B : U256} (he : setIn hashKeyId h model e = some B) (u : Nat) :
    Whole hashKeyId h model ((t, e) :: log) u := by
  refine Or.inl ?_
  rw [since, sinceSet_cons_set he]
  exact ⟨rfl, rfl⟩

/-- What a dutiful step adds is whole again: a debit is the first move of its task, and a refund
comes after its debit with no set of the budget between them. -/
theorem Whole.other (hset : setIn hashKeyId h model e = none)
    (hduty : BudgetDuty (System.trace log t) e)
    (hundisturbed : ∀ keyId amount, hashKeyId keyId = h →
      e.1 = .keys (.refundModelBudget keyId model amount) →
        (t, ⟨.keys (.debitModelBudget keyId model amount), .ok ()⟩) ∈ sinceSet hashKeyId h model log)
    {u : Nat} (hwhole : Whole hashKeyId h model log u) :
    Whole hashKeyId h model ((t, e) :: log) u := by
  by_cases hu : t = u
  swap
  · unfold Whole since at hwhole ⊢
    rw [sinceSet_cons_other hset, System.trace_cons_ne hu, System.trace_cons_ne hu]
    exact hwhole
  subst hu
  unfold Whole since at hwhole ⊢
  rw [sinceSet_cons_other hset, System.trace_cons_self, System.trace_cons_self]
  simp only [given_cons, taken_cons]
  rcases hwhole with ⟨hgiven, htaken⟩ | ⟨hgiven, htaken⟩
  swap
  · exact Or.inr ⟨by rw [hgiven], by rw [htaken]⟩
  rw [hgiven, htaken]
  obtain ⟨o, a⟩ := e
  cases o with
  | keys c =>
    cases c with
    | debitModelBudget keyId m amount =>
      have hnone : moves (System.trace log t) = [] := hduty
      refine Or.inr ⟨?_, ?_⟩
      · rw [given_eq_moves, hnone]
        rfl
      · rw [taken_eq_moves, hnone]
        rfl
    | refundModelBudget keyId m amount =>
      refine Or.inl ⟨?_, rfl⟩
      by_cases hrow : hashKeyId keyId = h ∧ m = model
      · obtain ⟨hkey, rfl⟩ := hrow
        have hmem := System.mem_trace.2 (hundisturbed keyId amount hkey rfl)
        have hzero : takenIn hashKeyId h m ⟨.keys (.debitModelBudget keyId m amount), .ok ()⟩ = 0 := by
          by_contra hne
          have := taken_pos hmem (Nat.pos_of_ne_zero hne)
          omega
        simpa [takenIn, givenIn, budgetTaken, budgetGiven, hkey] using hzero
      · exact if_neg hrow
    | _ => exact Or.inl ⟨rfl, rfl⟩
  | _ => exact Or.inl ⟨rfl, rfl⟩

end Entries

section Steps
variable {config : AppConfig} {h model : String}

/-- Whether an access of the store comes to an error. -/
def Input.fails : Input → Prop
  | .store _ cs => ∃ err, .fail err ∈ cs
  | _ => False

/-- One operation keeps the budgets on disk, and changes one as its entry says. -/
theorem handle_moved (h model : String) {sh sh' : Shared} {o : Op} {c : Input} {a : o.Ans}
    (hdurable : sh.keys.Durable) (hhandle : handle config sh o c = some (a, sh')) :
    sh'.keys.Durable ∧
      Moved (setIn config.hashKeyId h model ⟨o, a⟩) (takenIn config.hashKeyId h model ⟨o, a⟩)
        (givenIn config.hashKeyId h model ⟨o, a⟩) c.fails (sh.keys.budget h model)
        (sh'.keys.budget h model) := by
  have hsame : ∀ {x y : Nat} {fails : Prop} {v : Option U256}, x = 0 → y = 0 →
      Moved none x y fails v v := by
    rintro x y fails v rfl rfl
    exact ⟨nofun, fun _ cur hcur _ => ⟨cur, hcur, 0, rfl, Or.inl rfl⟩⟩
  have hquiet : sh'.keys = sh.keys → (∀ call, o ≠ .keys call) → sh'.keys.Durable ∧
      Moved (setIn config.hashKeyId h model ⟨o, a⟩) (takenIn config.hashKeyId h model ⟨o, a⟩)
        (givenIn config.hashKeyId h model ⟨o, a⟩) c.fails (sh.keys.budget h model)
        (sh'.keys.budget h model) := by
    intro hkeys ho
    rw [hkeys]
    cases o with
    | keys call => exact absurd rfl (ho call)
    | _ => exact ⟨hdurable, hsame rfl rfl⟩
  cases o with
  | keys call =>
    cases c with
    | store minted cs =>
      obtain ⟨⟨a', b'⟩, hperform, heq⟩ := Option.map_eq_some_iff.1 hhandle
      cases heq
      exact (ApiKeyStore.Backend.moved_perform hdurable hperform).symm
    | _ => cases hhandle
  | store call =>
    cases c with
    | store minted cs =>
      obtain ⟨⟨a', b'⟩, hmethod, heq⟩ := Option.map_eq_some_iff.1 hhandle
      cases heq
      have hrow : call.toMethod.budgetRow config.hashKeyId = none := by cases call <;> rfl
      obtain ⟨hdurable', hbudget⟩ :=
        ApiKeyStore.Backend.budget_method h model hrow hdurable hmethod
      refine ⟨hdurable', ?_⟩
      rw [hbudget]
      exact hsame rfl rfl
    | _ => cases hhandle
  | lookupModel name =>
    cases c with
    | ok =>
      simp only [handle] at hhandle
      split at hhandle <;> cases hhandle <;> exact hquiet rfl nofun
    | fail e =>
      cases hhandle
      exact hquiet rfl nofun
    | _ => cases hhandle
  | estimateCost _ _ _ _ =>
    cases c with
    | ok | fail e =>
      cases hhandle
      exact hquiet rfl nofun
    | _ => cases hhandle
  | newUuid =>
    cases c with
    | uuid u =>
      simp only [handle] at hhandle
      split at hhandle
      · cases hhandle
      · cases hhandle
        exact hquiet rfl nofun
    | _ => cases hhandle
  | live act | layer act =>
    cases c <;> try cases hhandle
    obtain ⟨r, _, heq⟩ := Option.map_eq_some_iff.1 hhandle
    cases heq
    exact hquiet rfl nofun
  | unwind => exact nomatch a
  | _ =>
    cases c <;> cases hhandle
    exact hquiet rfl nofun

end Steps

section Runs
variable (config : AppConfig) (h model : String)

def Pending (s : (node config).State) (t : Nat) (o : Op) : Prop :=
  ∃ j k, s.tasks[t]? = some ⟨j, some (.op o k)⟩

/-- A task refunds the budget only while nothing has set it since the debit that it undoes. -/
def Undisturbed (s : (node config).State) : (node config).Action → Prop
  | .exec t _ => ∀ keyId amount, config.hashKeyId keyId = h →
    Pending config s t (.keys (.refundModelBudget keyId model amount)) →
      (t, ⟨.keys (.debitModelBudget keyId model amount), .ok ()⟩) ∈
        sinceSet config.hashKeyId h model s.log
  | _ => True

/-- The store does not fail while the budget is refunded. -/
def RefundsKept (s : (node config).State) : (node config).Action → Prop
  | .exec t c => ∀ keyId amount, config.hashKeyId keyId = h →
    Pending config s t (.keys (.refundModelBudget keyId model amount)) → ¬ c.fails
  | _ => True

/-- The ledger of a budget: what is left, what was taken and what was given back. -/
structure BudgetLedger (exact : Prop) (s : (node config).State) : Prop where
  durable : s.shared.keys.Durable
  whole : ∀ t, Whole config.hashKeyId h model s.log t
  balance : ∀ B, lastSet config.hashKeyId h model s.log = some B →
    ∃ left, s.shared.keys.budget h model = some left ∧
      left.toNat + takenSince config.hashKeyId h model s.log ≤
        B.toNat + givenSince config.hashKeyId h model s.log ∧
      (exact → left.toNat + takenSince config.hashKeyId h model s.log =
        B.toNat + givenSince config.hashKeyId h model s.log)

end Runs

section Invariant
variable {config : AppConfig} {h model : String} {exact : Prop}
variable {ok : (node config).State → (node config).Action → Prop} {sh₀ : Shared}
variable {s : (node config).State}

theorem since_given_le_taken (hr : System.Reach (node config) ok ((node config).init sh₀) s)
    {t : Nat} (hwhole : Whole config.hashKeyId h model s.log t) :
    given config.hashKeyId h model (since config.hashKeyId h model s.log t) ≤
      taken config.hashKeyId h model (since config.hashKeyId h model s.log t) := by
  rcases hwhole with ⟨hgiven, _⟩ | ⟨hgiven, htaken⟩
  · exact hgiven.le.trans (Nat.zero_le _)
  · refine hgiven.le.trans (le_trans ?_ htaken.ge)
    by_cases ht : t < s.tasks.length
    · have hjob : s.job t = some s.tasks[t].job := by simp [System.State.job, ht]
      exact given_le_taken_of_kept (hr.kept (budgetContract config) (budgetContract_served _) hjob)
    · rw [hr.trace_eq_nil (Nat.not_lt.1 ht)]
      exact le_rfl

theorem given_le_taken (hr : System.Reach (node config) ok ((node config).init sh₀) s)
    (hwhole : ∀ t, Whole config.hashKeyId h model s.log t) :
    givenSince config.hashKeyId h model s.log ≤ takenSince config.hashKeyId h model s.log :=
  System.sum_le_of_traces (f := fun _ => givenIn config.hashKeyId h model)
    (g := fun _ => takenIn config.hashKeyId h model) fun t => since_given_le_taken hr (hwhole t)

theorem BudgetLedger.init {keys : Backend} {chain : Chain} (hdurable : keys.Durable) :
    BudgetLedger config h model exact ((node config).init (Shared.booted keys chain)) where
  durable := hdurable
  whole _ := Or.inl ⟨rfl, rfl⟩
  balance _ hset := by cases hset

theorem BudgetLedger.exec (hr : System.Reach (node config) ok ((node config).init sh₀) s)
    (hledger : BudgetLedger config h model exact s) {t : Nat} {c : Input} {j : Job} {o : Op}
    {k : o.Ans → M Outcome} {a : o.Ans} {sh : Shared}
    (htask : s.tasks[t]? = some ⟨j, some (.op o k)⟩)
    (hhandle : handle config s.shared o c = some (a, sh))
    (hok : ok s (.exec t c)) (hundisturbed : Undisturbed config h model s (.exec t c))
    (hkept : exact → RefundsKept config h model s (.exec t c)) :
    BudgetLedger config h model exact (s.advance t j o k a sh) := by
  have hduty : BudgetDuty (System.trace s.log t) ⟨o, a⟩ :=
    (Prog.meets_op.1 (hr.meets (budgetContract config) (budgetContract_served _) htask) a trivial).1
  obtain ⟨hdurable, hmoved⟩ := handle_moved h model hledger.durable hhandle
  have hsh : (s.advance t j o k a sh).shared = sh := by
    simp only [System.State.advance, System.settle]
    split <;> rfl
  have hlog : (s.advance t j o k a sh).log = (t, ⟨o, a⟩) :: s.log := rfl
  have hr' := hr.step hok (System.step_of_transition
    (System.Transition.exec (S := node config) t c j o k a sh htask hhandle))
  have hwhole : ∀ u, Whole config.hashKeyId h model ((t, ⟨o, a⟩) :: s.log) u := by
    intro u
    cases hset : setIn config.hashKeyId h model ⟨o, a⟩ with
    | some B => exact .set hset u
    | none =>
      refine .other hset hduty ?_ (hledger.whole u)
      rintro keyId amount hkey rfl
      exact hundisturbed keyId amount hkey ⟨j, k, htask⟩
  have hle := given_le_taken hr' hwhole
  refine ⟨by rwa [hsh], hwhole, fun B hB => ?_⟩
  rw [hlog] at hB hle ⊢
  rw [hsh]
  cases hset : setIn config.hashKeyId h model ⟨o, a⟩ with
  | some B' =>
    rw [lastSet_cons_set hset] at hB
    cases hB
    refine ⟨B, hmoved.set_eq B hset, ?_⟩
    simp only [takenSince, givenSince, sinceSet_cons_set hset]
    exact ⟨le_rfl, fun _ => rfl⟩
  | none =>
    rw [lastSet_cons_other hset] at hB
    obtain ⟨cur, hcur, hcurle, hcureq⟩ := hledger.balance B hB
    simp only [takenSince, givenSince, sinceSet_cons_other hset, List.map_cons, List.sum_cons]
      at hle hcurle hcureq ⊢
    have honly := taken_or_given_eq_zero config.hashKeyId h model ⟨o, a⟩
    have hB := B.isLt
    obtain ⟨left, hleft, back, hbalance, hback⟩ := hmoved.moved hset cur hcur (by omega)
    refine ⟨left, hleft, by omega, fun hexact => ?_⟩
    have hserved : back = givenIn config.hashKeyId h model ⟨o, a⟩ := by
      rcases hback with hback | ⟨hzero, hfails⟩
      · exact hback
      · by_contra hne
        obtain ⟨keyId, amount, rfl, hkey⟩ := refund_of_given (Nat.pos_of_ne_zero fun h => hne
          (hzero.trans h.symm))
        exact hkept hexact keyId amount hkey ⟨j, k, htask⟩ hfails
    have := hcureq hexact
    omega

theorem BudgetLedger.world (hledger : BudgetLedger config h model exact s) {w : World}
    {sh : Shared} (hworld : (node config).world s.shared w = some sh) :
    BudgetLedger config h model exact (s.turned w sh) := by
  have hkeys : sh.keys.Durable ∧ sh.keys.budget h model = s.shared.keys.budget h model := by
    cases w with
    | chain chain =>
      cases hworld
      exact ⟨hledger.durable, rfl⟩
    | restart mask =>
      have hdurable := hledger.durable
      simp only [restarted] at hworld
      split at hworld
      · cases hworld
      · rename_i st hst
        cases hworld
        rw [hst] at hdurable ⊢
        exact ⟨fun _ _ => Durable.DurableStore.synced_crash _ _ _,
          Durable.DurableStore.get_crash_of_synced (hdurable h model)⟩
  obtain ⟨hdurable, hbudget⟩ := hkeys
  refine ⟨hdurable, hledger.whole, fun B hB => ?_⟩
  obtain ⟨left, hleft, hrest⟩ := hledger.balance B hB
  exact ⟨left, hbudget.trans hleft, hrest⟩

theorem ledger_of_reach {keys : Backend} {chain : Chain} (hdurable : keys.Durable)
    (hr : System.Reach (node config) ok ((node config).init (Shared.booted keys chain)) s)
    (hundisturbed : ∀ s a, ok s a → Undisturbed config h model s a)
    (hkept : exact → ∀ s a, ok s a → RefundsKept config h model s a) :
    BudgetLedger config h model exact s := by
  refine hr.invariant _ (.init hdurable) fun s s' a hr hledger hok hT => ?_
  cases hT with
  | start j sh hstart =>
    have hsh : sh = s.shared := by
      cases j <;> cases hstart <;> rfl
    subst hsh
    exact ⟨hledger.durable, hledger.whole, hledger.balance⟩
  | exec t c j o k a sh htask hhandle =>
    exact hledger.exec hr htask hhandle hok (hundisturbed _ _ hok) fun hexact => hkept hexact _ _ hok
  | drop t j o k htask => exact ⟨hledger.durable, hledger.whole, hledger.balance⟩
  | world w sh hworld => exact hledger.world hworld

/-- What a failed request took from the budget that is in force, it has given back. -/
theorem given_eq_taken_of_failed
    (hr : System.Reach (node config) ok ((node config).init sh₀) s)
    (hwhole : ∀ t, Whole config.hashKeyId h model s.log t) {t : Nat} {j : Job}
    {r : Except String Response} (htask : s.tasks[t]? = some ⟨j, some (.ret (.answered r))⟩)
    (hfailed : failed r = true) :
    given config.hashKeyId h model (since config.hashKeyId h model s.log t) =
      taken config.hashKeyId h model (since config.hashKeyId h model s.log t) := by
  have hundone := hr.meets (budgetContract config) (budgetContract_served _) htask r rfl hfailed
  rcases hwhole t with ⟨hgiven, htaken⟩ | ⟨hgiven, htaken⟩
  · rw [hgiven, htaken]
  · rw [hgiven, htaken]
    exact given_eq_taken_of_undone hundone

/-- A budget is never inflated while no request has the budget set between its debit and its
refund. Where the store does not fail a refund, what is left is exact. -/
theorem budget_never_inflated (config : AppConfig) (keys : Backend) (chain : Chain)
    (hdurable : keys.Durable) (h model : String) :
    (∀ s, System.Reach (node config) (Undisturbed config h model)
        ((node config).init (Shared.booted keys chain)) s →
      ∀ B, lastSet config.hashKeyId h model s.log = some B →
        (∃ left, s.shared.keys.budget h model = some left ∧ left.toNat ≤ B.toNat) ∧
        ∀ t j r, s.tasks[t]? = some ⟨j, some (.ret (.answered r))⟩ → failed r = true →
          given config.hashKeyId h model (since config.hashKeyId h model s.log t) =
            taken config.hashKeyId h model (since config.hashKeyId h model s.log t)) ∧
    ∀ s, System.Reach (node config)
        (fun s a => Undisturbed config h model s a ∧ RefundsKept config h model s a)
        ((node config).init (Shared.booted keys chain)) s →
      ∀ B, lastSet config.hashKeyId h model s.log = some B →
        ∃ left, s.shared.keys.budget h model = some left ∧
          left.toNat + takenSince config.hashKeyId h model s.log =
            B.toNat + givenSince config.hashKeyId h model s.log := by
  refine ⟨fun s hr B hB => ?_, fun s hr B hB => ?_⟩
  · have hledger : BudgetLedger config h model False s :=
      ledger_of_reach hdurable hr (fun _ _ hok => hok) fun h => h.elim
    refine ⟨?_, fun t j r htask hfailed => given_eq_taken_of_failed hr hledger.whole htask hfailed⟩
    obtain ⟨left, hleft, hle, _⟩ := hledger.balance B hB
    have := given_le_taken hr hledger.whole
    exact ⟨left, hleft, by omega⟩
  · have hledger : BudgetLedger config h model True s :=
      ledger_of_reach hdurable hr (fun _ _ hok => hok.1) fun _ _ _ hok => hok.2
    obtain ⟨left, hleft, _, heq⟩ := hledger.balance B hB
    exact ⟨left, hleft, heq trivial⟩

end Invariant

section Sample

def llama : String := "llama-3-8b"

/-- The hash that the model is registered with, spelled out. -/
def llamaHash : String := "0x9f2c4e0d7a1b8365c4d2e1f0a9b8c7d6e5f4031221304f5e6d7c8b9aa1b2c3d4"

def chatJson (model : String) : Bytes :=
  utf8 ("\x7b\"model\":\"" ++ model ++
    "\",\"messages\":[\x7b\"role\":\"user\",\"content\":\"hi\"\x7d]\x7d")

def sampleChat (model : String) : ChatCompletionRequest := ⟨model, [⟨"user", "hi"⟩], none, false⟩

/-- The model that a sample body asks for. -/
def modelOf (body : Bytes) : Option String := [llama, llamaHash].find? (chatJson · = body)

/-- The readers of a body, on the bodies of the sample runs. -/
def sampleFormat : BodyFormat where
  Value := String
  extractChat contentType body :=
    if contentType = some "application/json" then
      ((modelOf body).map sampleChat).elim (.error (.syntaxError "expected value")) .ok
    else .error .missingContentType
  extractBatch _ _ := .error (.dataError "missing field `requests`")
  fromSlice body := (modelOf body).elim (.error "expected value") .ok
  chatFromValue model := .ok (sampleChat model)
  batchFromValue _ := .error "missing field `requests`"

def sampleApp : AppConfig where
  maxTokensCeiling := defaultMaxTokensCeiling
  requireSignedResults := false
  resultCrypto := ⟨knownDigest [], fun _ _ _ => none⟩
  hashKeyId := KeyStore.sampleHash
  persist := true
  defaultModel := llama
  format := sampleFormat
  crypto := sampleCrypto
  x402 := sampleConfig

def sampleChain : Chain where
  registry name := if name = llama then pinnedHash llamaHash else none
  oracle _ _ _ _ := 7

def sampleProvider : ProviderInfo where
  address := 0x5555555555555555555555555555555555555555
  endpoint := "http://provider-1:9000"
  reputationBps := 9000
  currentLoad := 0
  maxConcurrent := 4

def sampleRequest : Request where
  route := .chat
  line := ⟨"POST", "/v1/chat/completions"⟩
  authorization := some ("Bearer " ++ KeyStore.sampleKeyId)
  contentType := some "application/json"
  paymentHeader := none

def sampleStart : (node sampleApp).State :=
  (node sampleApp).init (Shared.booted (.persistent ⟨.empty, []⟩) sampleChain)

/-- A key with 1000 grains, a request of its owner, and a budget of 50 grains. -/
def sampleJobs : List Job :=
  [.createKey "acme" 1000 0 .credits, .request sampleRequest,
    .setModelBudget KeyStore.sampleKeyId llama 50]

/-- The store serves every access of a call. -/
def served : Input := .store ⟨KeyStore.sampleUuid, 7⟩ (List.replicate 4 .ok)

def keyCreated : Input :=
  .store ⟨KeyStore.sampleUuid, 7⟩ [.uuid KeyStore.sampleUuid, .secs 7, .ok]

/-- A request for a model is priced, debited and charged to its budget. -/
def charged (model : String) : List Input :=
  [served, .layer ⟨.bufferRequestBody, .ok (chatJson model)⟩, .ok, .ok, served, .ok, .ok, .ok,
    served]

/-- The one provider fails, and what was taken is given back. -/
def undone : List Input :=
  [.ok, .providers (.ok [sampleProvider]), .pools (.ok []), .provider (.error .noProviders),
    served, .ok, served]

def sampleHash : String := KeyStore.sampleHash KeyStore.sampleKeyId

def outcome (check : (node sampleApp).State → (node sampleApp).Action → Bool)
    (events : List (Nat × Input)) : Option (node sampleApp).State :=
  (node sampleApp).run check sampleStart (System.script sampleJobs events)

/-- The budget is set while the request is dispatched, and comes out above what was set. -/
theorem inflated_by_late_refund :
    ∃ s, outcome (fun _ _ => true)
        ((0, keyCreated) :: (charged llama).map (1, ·) ++ (2, served) :: undone.map (1, ·)) =
          some s ∧
      lastSet sampleApp.hashKeyId sampleHash llama s.log = some 50 ∧
      s.shared.keys.budget sampleHash llama = some 57 :=
  ⟨_, rfl, rfl, rfl⟩

def isDebitOf (keyId model : String) (amount : U256) : Event → Bool
  | ⟨.keys (.debitModelBudget k m a), .ok ()⟩ => k = keyId && m = model && a = amount
  | _ => false

theorem eq_of_isDebitOf {keyId model : String} {amount : U256} {e : Event}
    (he : isDebitOf keyId model amount e = true) :
    e = ⟨.keys (.debitModelBudget keyId model amount), .ok ()⟩ := by
  unfold isDebitOf at he
  split at he
  · simp only [Bool.and_eq_true, decide_eq_true_eq] at he
    obtain ⟨⟨rfl, rfl⟩, rfl⟩ := he
    rfl
  · cases he

def servesAll : Input → Bool
  | .store _ cs => cs.all (· = .ok)
  | _ => true

/-- Only a refund of a budget has to be checked. -/
def refundCheck (h model : String) (s : (node sampleApp).State) :
    (node sampleApp).Action → Bool
  | .exec t c =>
    match s.tasks[t]? with
    | some ⟨_, some (.op (.keys (.refundModelBudget keyId _ amount)) _)⟩ =>
      (sinceSet sampleApp.hashKeyId h model s.log).any
          (fun x => x.1 = t && isDebitOf keyId model amount x.2) && servesAll c
    | _ => true
  | _ => true

theorem kept_of_refundCheck {h model : String} {s : (node sampleApp).State}
    {a : (node sampleApp).Action} (hcheck : refundCheck h model s a = true) :
    Undisturbed sampleApp h model s a ∧ RefundsKept sampleApp h model s a := by
  cases a with
  | exec t c =>
    have hpending : ∀ keyId amount,
        Pending sampleApp s t (.keys (.refundModelBudget keyId model amount)) →
          (sinceSet sampleApp.hashKeyId h model s.log).any
            (fun x => x.1 = t && isDebitOf keyId model amount x.2) = true ∧ servesAll c = true := by
      rintro keyId amount ⟨j, k, htask⟩
      simpa [refundCheck, htask] using hcheck
    refine ⟨fun keyId amount _ hp => ?_, fun keyId amount _ hp hfails => ?_⟩
    · obtain ⟨x, hx, hmatch⟩ := List.any_eq_true.1 (hpending keyId amount hp).1
      obtain ⟨u, e⟩ := x
      simp only [Bool.and_eq_true, decide_eq_true_eq] at hmatch
      obtain ⟨rfl, he⟩ := hmatch
      rwa [eq_of_isDebitOf he] at hx
    · have hall := (hpending keyId amount hp).2
      cases c with
      | store minted cs =>
        obtain ⟨err, herr⟩ := hfails
        simpa using List.all_eq_true.1 hall _ herr
      | _ => exact hfails
  | _ => exact ⟨trivial, trivial⟩

theorem budget_never_inflated_sample :
    ∃ s, outcome (refundCheck sampleHash llama)
        ((0, keyCreated) :: (2, served) :: (charged llama ++ undone).map (1, ·)) = some s ∧
      lastSet sampleApp.hashKeyId sampleHash llama s.log = some 50 ∧
      (∃ left, s.shared.keys.budget sampleHash llama = some left ∧ left.toNat ≤ 50) ∧
      ∃ left, s.shared.keys.budget sampleHash llama = some left ∧
        left.toNat + takenSince sampleApp.hashKeyId sampleHash llama s.log =
          50 + givenSince sampleApp.hashKeyId sampleHash llama s.log := by
  obtain ⟨s, hs, hset⟩ : ∃ s, outcome (refundCheck sampleHash llama)
      ((0, keyCreated) :: (2, served) :: (charged llama ++ undone).map (1, ·)) = some s ∧
        lastSet sampleApp.hashKeyId sampleHash llama s.log = some 50 := ⟨_, rfl, rfl⟩
  have hdurable : (Backend.persistent ⟨.empty, []⟩).Durable := fun _ _ => List.not_mem_nil
  obtain ⟨hbounded, hexact⟩ := budget_never_inflated sampleApp _ sampleChain hdurable sampleHash llama
  have hr : System.Reach (node sampleApp) (fun s a => Undisturbed sampleApp sampleHash llama s a ∧
      RefundsKept sampleApp sampleHash llama s a) sampleStart s :=
    .of_run (fun _ _ hcheck => kept_of_refundCheck hcheck) hs
  have hr' : System.Reach (node sampleApp) (Undisturbed sampleApp sampleHash llama) sampleStart s :=
    hr.mono fun _ _ hok => hok.1
  exact ⟨s, hs, hset, (hbounded s hr' 50 hset).1, hexact s hr 50 hset⟩

end Sample
end Gateway.App
