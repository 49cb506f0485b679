import Mathlib.Data.Nat.Notation

/-!
# Gateway errors
-/

namespace Gateway
set_option autoImplicit false

inductive GatewayError where
  | unknownModel (model : String)
  | noProviders
  | providerUnavailable (msg : String)
  | chainUnavailable (msg : String)
  | pricingUnavailable (msg : String)
  | badRequest (msg : String)
  | internal (msg : String)
  | poolDispatchUnimplemented (msg : String)
  | underfunded (paidWei requiredWei : String) (maxTokens : UInt32)
  | spendCapExceeded (requestedWei remainingWei : String)
  | modelBudgetExceeded (model remainingGrains : String)
  deriving DecidableEq

namespace GatewayError

def httpStatus : GatewayError → Nat
  | unknownModel _ | badRequest _ => 400
  | underfunded _ _ _ | spendCapExceeded _ _ | modelBudgetExceeded _ _ => 402
  | noProviders | providerUnavailable _ | chainUnavailable _ | pricingUnavailable _
  | poolDispatchUnimplemented _ => 503
  | internal _ => 500

def display : GatewayError → String
  | unknownModel model => "unknown model: " ++ model
  | noProviders => "no providers available for model"
  | providerUnavailable msg => "provider call failed: " ++ msg
  | chainUnavailable msg => "chain unavailable: " ++ msg
  | pricingUnavailable msg => "pricing unavailable: " ++ msg
  | badRequest msg => "bad request: " ++ msg
  | internal msg => "internal: " ++ msg
  | poolDispatchUnimplemented msg => "pool dispatch not implemented yet (slice 2): " ++ msg
  | underfunded paid required maxTokens =>
    "payment underfunded: paid " ++ paid ++ " wei < required " ++ required ++
      " wei (max_tokens=" ++ toString maxTokens.toNat ++ ")"
  | spendCapExceeded requested remaining =>
    "operator spend cap exceeded: requested " ++ requested ++ " wei, " ++ remaining ++
      " wei left this epoch"
  | modelBudgetExceeded model remaining =>
    "model budget exhausted for " ++ model ++ ": " ++ remaining ++ " grains remaining"

end GatewayError
theorem ok_of_toOption {ε α : Type} {r : Except ε α} {a : α} (h : r.toOption = some a) :
    r = .ok a := by
  cases r with
  | error e => cases h
  | ok b =>
    cases h
    rfl

end Gateway
