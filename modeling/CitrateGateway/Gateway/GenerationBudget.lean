import CitrateGateway.Shared.Words

/-!
# The generation budget of a proxied body

One request is metered once, so the tokens it may generate are bounded before it is forwarded. The
budget is split evenly over the generations that the body asks for. Reading and writing JSON is
the work of a package; a body is handled as the value that the package reads.
-/

namespace Gateway.LocalProxy
set_option autoImplicit false
open Words

section Values

/-- A number as it was read: an integer of 64 bits where it is one, a double otherwise. -/
inductive Number where
  | posInt (n : UInt64)
  | negInt (n : Int)
  | float (bits : UInt64)
  deriving DecidableEq

inductive Value where
  | null
  | bool (b : Bool)
  | number (n : Number)
  | string (s : String)
  | array (items : List Value)
  | object (members : List (String × Value))

/-- The members of an object, in the order of their names. -/
abbrev Members := List (String × Value)

def Value.asU64 : Value → Option UInt64
  | .number (.posInt n) => some n
  | _ => none

def Value.isNumber : Value → Bool
  | .number _ => true
  | _ => false

def Value.ofU64 (n : UInt64) : Value := .number (.posInt n)

/-- Set a member, which is put in its place when it is new. -/
def Members.insert (key : String) (v : Value) : Members → Members
  | [] => [(key, v)]
  | (k, w) :: rest =>
    if k = key then (key, v) :: rest
    else if key < k then (key, v) :: (k, w) :: rest
    else (k, w) :: Members.insert key v rest

theorem lookup_insert_self (key : String) (v : Value) (obj : Members) :
    (Members.insert key v obj).lookup key = some v := by
  induction obj with
  | nil => simp [Members.insert]
  | cons m rest ih =>
    obtain ⟨k, w⟩ := m
    unfold Members.insert
    split
    · simp
    · rename_i hne
      split
      · simp
      · rw [List.lookup_cons, beq_false_of_ne (Ne.symm hne)]
        exact ih

theorem lookup_insert_ne {key other : String} (hne : other ≠ key) (v : Value) (obj : Members) :
    (Members.insert key v obj).lookup other = obj.lookup other := by
  induction obj with
  | nil => simp [Members.insert, List.lookup_cons, beq_false_of_ne hne]
  | cons m rest ih =>
    obtain ⟨k, w⟩ := m
    unfold Members.insert
    split
    · rename_i heq
      rw [List.lookup_cons, List.lookup_cons, heq, beq_false_of_ne hne]
    · split
      · rw [List.lookup_cons, beq_false_of_ne hne]
      · rw [List.lookup_cons, List.lookup_cons, ih]

end Values

section Clamp

def maxGenerationsPerRequest : Nat := 8

def generationLimitFields : List String := ["max_tokens", "max_completion_tokens", "n_predict"]

def fanOutFields : List String := ["n", "best_of"]

/-- A prompt array is one prompt of token ids, or one prompt for each item. -/
def promptCount (obj : Members) : Nat :=
  match obj.lookup "prompt" with
  | some (.array items) => if items.all Value.isNumber then 1 else items.length
  | _ => 1

/-- The largest of the fan-out fields that are there. -/
def perPrompt (obj : Members) : List String → Nat → Except String Nat
  | [], most => .ok most
  | field :: fields, most =>
    match obj.lookup field with
    | none | some .null => perPrompt obj fields most
    | some v =>
      match v.asU64 with
      | some k => perPrompt obj fields (max most k.toNat)
      | none => .error "n / best_of must be a non-negative integer"

def generationCount (obj : Members) : Except String Nat :=
  match perPrompt obj fanOutFields 1 with
  | .error e => .error e
  | .ok k => .ok (min (max (promptCount obj) 1 * max k 1) (2 ^ 64 - 1))

/-- A limit that is a non-negative integer within the budget of one generation. -/
def withinBudget (per : UInt64) (v : Value) : Bool := v.asU64.any (· ≤ per)

/-- Every limit that is there brought within the budget, and whether one was there. -/
def clampFields (per : UInt64) : List String → Members → Bool × Members
  | [], obj => (false, obj)
  | field :: fields, obj =>
    match obj.lookup field with
    | none => clampFields per fields obj
    | some v =>
      (true, (clampFields per fields
        (if withinBudget per v then obj else Members.insert field (.ofU64 per) obj)).2)

/-- How the package reads a body and writes a value. -/
structure JsonFormat where
  fromSlice : Bytes → Option Value
  toVec : Value → Option Bytes

/-- The budget of one generation. -/
def perGeneration (cap : UInt64) (generations : Nat) : UInt64 :=
  max (UInt64.ofNat (cap.toNat / generations)) 1

def clampMembers (per : UInt64) (obj : Members) : Members :=
  match clampFields per generationLimitFields obj with
  | (true, obj') => obj'
  | (false, obj') => Members.insert "max_tokens" (.ofU64 per) obj'

def clampGenerationBudget (format : JsonFormat) (body : Bytes) (cap : UInt64) :
    Except String Bytes :=
  match format.fromSlice body with
  | some (.object obj) =>
    match generationCount obj with
    | .error e => .error e
    | .ok generations =>
      if maxGenerationsPerRequest < generations then
        .error "too many generations in one request (prompts x n)"
      else
        match format.toVec (.object (clampMembers (perGeneration cap generations) obj)) with
        | some out => .ok out
        | none => .error "request body could not be re-encoded"
  | _ => .error "request body must be a JSON object"

end Clamp

section Count

/-- A fan-out field that is neither absent, null nor a non-negative integer. -/
def Unmetered (obj : Members) (field : String) : Prop :=
  ∃ v, obj.lookup field = some v ∧ v ≠ .null ∧ v.asU64 = none

theorem perPrompt_error_iff (obj : Members) (fields : List String) (most : Nat) :
    (∃ e, perPrompt obj fields most = .error e) ↔ ∃ field ∈ fields, Unmetered obj field := by
  induction fields generalizing most with
  | nil => simp [perPrompt]
  | cons field fields ih =>
    have hskip : ¬ Unmetered obj field →
        ((∃ f ∈ field :: fields, Unmetered obj f) ↔ ∃ f ∈ fields, Unmetered obj f) := by
      intro hnot
      simp [hnot]
    unfold perPrompt
    split
    · rename_i hnone
      rw [ih, hskip]
      rintro ⟨v, hv, -, -⟩
      rw [hnone] at hv
      cases hv
    · rename_i hnull
      rw [ih, hskip]
      rintro ⟨v, hv, hne, -⟩
      rw [hnull] at hv
      cases hv
      exact hne rfl
    · rename_i v hne hv
      split
      · rename_i k hk
        rw [ih, hskip]
        rintro ⟨v', hv', -, hnone⟩
        rw [hv] at hv'
        cases hv'
        rw [hk] at hnone
        cases hnone
      · rename_i hnone
        constructor
        · intro _
          exact ⟨field, by simp, v, hv, hne, hnone⟩
        · intro _
          exact ⟨_, rfl⟩

theorem generationCount_error_iff (obj : Members) :
    (∃ e, generationCount obj = .error e) ↔ ∃ field ∈ fanOutFields, Unmetered obj field := by
  rw [← perPrompt_error_iff obj fanOutFields 1, generationCount]
  cases perPrompt obj fanOutFields 1 with
  | error e => simp
  | ok k => simp

theorem generationCount_pos {obj : Members} {generations : Nat}
    (h : generationCount obj = .ok generations) : 1 ≤ generations := by
  unfold generationCount at h
  split at h
  · cases h
  · rename_i k _
    cases h
    have hmul : 1 * 1 ≤ max (promptCount obj) 1 * max k 1 :=
      Nat.mul_le_mul (Nat.le_max_right _ _) (Nat.le_max_right _ _)
    omega

theorem perPrompt_congr {obj obj' : Members} {fields : List String} (most : Nat)
    (h : ∀ field ∈ fields, obj'.lookup field = obj.lookup field) :
    perPrompt obj' fields most = perPrompt obj fields most := by
  induction fields generalizing most with
  | nil => rfl
  | cons field fields ih =>
    have hrest : ∀ f ∈ fields, obj'.lookup f = obj.lookup f := fun f hf => h f (by simp [hf])
    rw [perPrompt, perPrompt, h field (by simp)]
    simp only [ih _ hrest]

theorem generationCount_congr {obj obj' : Members}
    (h : ∀ key ∉ generationLimitFields, obj'.lookup key = obj.lookup key) :
    generationCount obj' = generationCount obj := by
  have hprompt := h "prompt" (by decide)
  have hfanOut : ∀ field ∈ fanOutFields, obj'.lookup field = obj.lookup field := by
    intro field hfield
    refine h field ?_
    revert field
    decide
  rw [generationCount, generationCount, perPrompt_congr 1 hfanOut, promptCount, promptCount,
    hprompt]

end Count

section Limits
variable {per : UInt64}

theorem clampFields_other {fields : List String} {key : String} (hkey : key ∉ fields)
    (obj : Members) : (clampFields per fields obj).2.lookup key = obj.lookup key := by
  induction fields generalizing obj with
  | nil => rfl
  | cons field fields ih =>
    have hne : key ≠ field := fun heq => hkey (by simp [heq])
    have hrest : key ∉ fields := fun hmem => hkey (by simp [hmem])
    unfold clampFields
    split
    · exact ih hrest obj
    · simp only
      rw [ih hrest]
      split
      · rfl
      · exact lookup_insert_ne hne _ obj

theorem clampFields_field (per : UInt64) {fields : List String} (hnodup : fields.Nodup)
    {field : String} (hfield : field ∈ fields) (obj : Members) :
    (clampFields per fields obj).2.lookup field =
      (obj.lookup field).map fun v => if withinBudget per v then v else .ofU64 per := by
  induction fields generalizing obj with
  | nil => cases hfield
  | cons f fields ih =>
    obtain ⟨hf, hnodup⟩ := List.nodup_cons.1 hnodup
    rcases List.mem_cons.1 hfield with rfl | hmem
    · unfold clampFields
      split
      · rename_i hnone
        rw [clampFields_other hf, hnone]
        rfl
      · rename_i v hv
        simp only
        rw [clampFields_other hf, hv, Option.map_some]
        split
        · exact hv
        · exact lookup_insert_self field _ obj
    · have hne : field ≠ f := by
        rintro rfl
        exact hf hmem
      unfold clampFields
      split
      · exact ih hnodup hmem obj
      · simp only
        rw [ih hnodup hmem]
        split
        · rfl
        · rw [lookup_insert_ne hne]

theorem clampFields_named (per : UInt64) (fields : List String) (obj : Members) :
    (clampFields per fields obj).1 = fields.any fun f => (obj.lookup f).isSome := by
  induction fields generalizing obj with
  | nil => rfl
  | cons field fields ih =>
    unfold clampFields
    split
    · rename_i hnone
      rw [ih, List.any_cons, hnone]
      rfl
    · rename_i v hv
      rw [List.any_cons, hv]
      rfl

/-- Limits within the budget are left as they are. -/
theorem clampFields_fixed {fields : List String} {obj : Members}
    (h : ∀ f ∈ fields, ∀ v, obj.lookup f = some v → withinBudget per v = true) :
    (clampFields per fields obj).2 = obj := by
  induction fields with
  | nil => rfl
  | cons field fields ih =>
    have hrest := ih fun f hf => h f (by simp [hf])
    unfold clampFields
    split
    · exact hrest
    · rename_i v hv
      rw [if_pos (h field (by simp) v hv)]
      exact hrest

theorem limitFields_nodup : generationLimitFields.Nodup := by decide

theorem withinBudget_ofU64 (per : UInt64) : withinBudget per (.ofU64 per) = true :=
  decide_eq_true (UInt64.le_refl per)

/-- The members that were clamped: nothing but the limits is touched, one of them is there, all of
them are within the budget, and those that were are unchanged. -/
structure Clamped (per : UInt64) (obj obj' : Members) : Prop where
  same : ∀ key ∉ generationLimitFields, obj'.lookup key = obj.lookup key
  named : ∃ field ∈ generationLimitFields, (obj'.lookup field).isSome = true
  bounded : ∀ field ∈ generationLimitFields, ∀ v, obj'.lookup field = some v →
    ∃ n, v.asU64 = some n ∧ n ≤ per
  unchanged : ∀ field ∈ generationLimitFields, ∀ v n, obj.lookup field = some v →
    v.asU64 = some n → n ≤ per → obj'.lookup field = some v

theorem withinBudget_iff {v : Value} :
    withinBudget per v = true ↔ ∃ n, v.asU64 = some n ∧ n ≤ per := by
  rw [withinBudget]
  cases v.asU64 with
  | none => simp
  | some n => simp

theorem clampMembers_eq (per : UInt64) (obj : Members) :
    clampMembers per obj =
      if generationLimitFields.any fun f => (obj.lookup f).isSome then
        (clampFields per generationLimitFields obj).2
      else Members.insert "max_tokens" (.ofU64 per)
        (clampFields per generationLimitFields obj).2 := by
  have hnamed := clampFields_named per generationLimitFields obj
  rw [clampMembers, ← hnamed]
  rcases clampFields per generationLimitFields obj with ⟨_ | _, obj'⟩
  · rfl
  · rfl

/-- A limit after the clamp was there and within the budget, or it is the budget. -/
theorem lookup_clampMembers {obj : Members} {field : String} {v : Value}
    (hfield : field ∈ generationLimitFields)
    (hv : (clampMembers per obj).lookup field = some v) : withinBudget per v = true := by
  have hafter := clampFields_field per limitFields_nodup hfield obj
  have hclamped : (clampFields per generationLimitFields obj).2.lookup field = some v →
      withinBudget per v = true := by
    intro hlookup
    rw [hafter] at hlookup
    obtain ⟨w, -, rfl⟩ := Option.map_eq_some_iff.1 hlookup
    split
    · assumption
    · exact withinBudget_ofU64 per
  rw [clampMembers_eq] at hv
  split at hv
  · exact hclamped hv
  · by_cases hmax : field = "max_tokens"
    · rw [hmax, lookup_insert_self] at hv
      cases hv
      exact withinBudget_ofU64 per
    · rw [lookup_insert_ne hmax] at hv
      exact hclamped hv

theorem clampMembers_clamped (per : UInt64) (obj : Members) :
    Clamped per obj (clampMembers per obj) := by
  constructor
  · intro key hkey
    have hother : (clampFields per generationLimitFields obj).2.lookup key = obj.lookup key :=
      clampFields_other hkey obj
    have hmax : key ≠ "max_tokens" := by
      rintro rfl
      exact hkey (by decide)
    rw [clampMembers_eq]
    split
    · exact hother
    · rw [lookup_insert_ne hmax, hother]
  · rw [clampMembers_eq]
    split
    · rename_i hnamed
      obtain ⟨field, hfield, hsome⟩ := List.any_eq_true.1 hnamed
      refine ⟨field, hfield, ?_⟩
      rw [clampFields_field per limitFields_nodup hfield, Option.isSome_map]
      exact hsome
    · refine ⟨"max_tokens", by decide, ?_⟩
      rw [lookup_insert_self]
      rfl
  · intro field hfield v hv
    exact withinBudget_iff.1 (lookup_clampMembers hfield hv)
  · intro field hfield v n hv hn hle
    have hwithin : withinBudget per v = true := withinBudget_iff.2 ⟨n, hn, hle⟩
    have hnamed : (generationLimitFields.any fun f => (obj.lookup f).isSome) = true :=
      List.any_eq_true.2 ⟨field, hfield, by rw [hv]; rfl⟩
    rw [clampMembers_eq, if_pos hnamed, clampFields_field per limitFields_nodup hfield, hv,
      Option.map_some, if_pos hwithin]

theorem clampMembers_idem (per : UInt64) (obj : Members) :
    clampMembers per (clampMembers per obj) = clampMembers per obj := by
  obtain ⟨field, hfield, hsome⟩ := (clampMembers_clamped per obj).named
  rw [clampMembers_eq per (clampMembers per obj),
    if_pos (List.any_eq_true.2 ⟨field, hfield, hsome⟩)]
  exact clampFields_fixed fun f hf v hv => lookup_clampMembers hf hv

end Limits

section Budget
variable {format : JsonFormat}

theorem perGeneration_toNat (cap : UInt64) (generations : Nat) :
    (perGeneration cap generations).toNat = max (cap.toNat / generations) 1 := by
  have hlt : cap.toNat / generations < 2 ^ 64 :=
    Nat.lt_of_le_of_lt (Nat.div_le_self _ _) cap.toNat_lt
  have hshare : (UInt64.ofNat (cap.toNat / generations)).toNat = cap.toNat / generations :=
    UInt64.toNat_ofNat_of_lt' hlt
  have hone : (1 : UInt64).toNat = 1 := rfl
  change (if UInt64.ofNat (cap.toNat / generations) ≤ 1 then 1
    else UInt64.ofNat (cap.toNat / generations)).toNat = _
  split
  · rename_i hle
    rw [UInt64.le_iff_toNat_le, hshare, hone] at hle
    omega
  · rename_i hle
    rw [UInt64.le_iff_toNat_le, hshare, hone] at hle
    omega

theorem budget_le (cap : UInt64) (generations : Nat) :
    generations * (perGeneration cap generations).toNat ≤ max cap.toNat generations := by
  rw [perGeneration_toNat]
  rcases Nat.le_total 1 (cap.toNat / generations) with hle | hle
  · rw [Nat.max_eq_left hle]
    exact (Nat.mul_div_le _ _).trans (Nat.le_max_left _ _)
  · rw [Nat.max_eq_right hle, Nat.mul_one]
    exact Nat.le_max_right _ _

/-- Members that come of parsed ones by setting limits to unsigned integers. -/
inductive Readable (format : JsonFormat) : Members → Prop
  | parsed (body : Bytes) (obj : Members) (h : format.fromSlice body = some (.object obj)) :
      Readable format obj
  | insert (field : String) (hfield : field ∈ generationLimitFields) (n : UInt64) (obj : Members)
      (h : Readable format obj) : Readable format (Members.insert field (.ofU64 n) obj)

/-- The package writes such objects, and reads back what it wrote. -/
def RoundTrips (format : JsonFormat) : Prop :=
  ∀ obj, Readable format obj → ∃ out, format.toVec (.object obj) = some out ∧
    format.fromSlice out = some (.object obj)

theorem readable_clampFields {fields : List String} (hfields : fields ⊆ generationLimitFields)
    {per : UInt64} {obj : Members} (h : Readable format obj) :
    Readable format (clampFields per fields obj).2 := by
  induction fields generalizing obj with
  | nil => exact h
  | cons field fields ih =>
    have hrest := List.Subset.trans (List.subset_cons_self field fields) hfields
    unfold clampFields
    split
    · exact ih hrest h
    · refine ih hrest ?_
      split
      · exact h
      · exact .insert field (hfields (by simp)) per obj h

theorem readable_clampMembers (per : UInt64) {obj : Members} (h : Readable format obj) :
    Readable format (clampMembers per obj) := by
  have hclamped : Readable format (clampFields per generationLimitFields obj).2 :=
    readable_clampFields (List.Subset.refl _) h
  rw [clampMembers_eq]
  split
  · exact hclamped
  · exact .insert _ (by decide) per _ hclamped

/-- A body that is turned down. -/
def Refused (format : JsonFormat) (body : Bytes) : Prop :=
  (∀ obj, format.fromSlice body ≠ some (.object obj)) ∨
  ∃ obj, format.fromSlice body = some (.object obj) ∧
    ((∃ field ∈ fanOutFields, Unmetered obj field) ∨
      ∃ generations, generationCount obj = .ok generations ∧ 8 < generations)

/-- A body that is forwarded, and what is forwarded for it. -/
structure Forwarded (format : JsonFormat) (body : Bytes) (cap : UInt64) (out : Bytes)
    (obj obj' : Members) (generations : Nat) (per : UInt64) : Prop where
  read : format.fromSlice body = some (.object obj)
  rewritten : format.fromSlice out = some (.object obj')
  count : generationCount obj = .ok generations
  count_out : generationCount obj' = .ok generations
  few : 1 ≤ generations ∧ generations ≤ 8
  share : per.toNat = max 1 (cap.toNat / generations)
  budget : generations * per.toNat ≤ max cap.toNat generations
  clamped : Clamped per obj obj'
  again : clampGenerationBudget format out cap = .ok out

theorem generationCount_clampMembers {per : UInt64} (obj : Members) :
    generationCount (clampMembers per obj) = generationCount obj :=
  generationCount_congr (clampMembers_clamped per obj).same

theorem clampGenerationBudget_eq {body : Bytes} {obj : Members} (cap : UInt64) {generations : Nat}
    (hread : format.fromSlice body = some (.object obj))
    (hcount : generationCount obj = .ok generations) (hfew : generations ≤ 8) {out : Bytes}
    (hout : format.toVec (.object (clampMembers (perGeneration cap generations) obj)) = some out) :
    clampGenerationBudget format body cap = .ok out := by
  have hnot : ¬ maxGenerationsPerRequest < generations := Nat.not_lt.2 hfew
  simp only [clampGenerationBudget, hread, hcount, if_neg hnot, hout]

theorem not_refused {body : Bytes} {obj : Members} {generations : Nat}
    (hread : format.fromSlice body = some (.object obj))
    (hcount : generationCount obj = .ok generations) (hfew : generations ≤ 8) :
    ¬ Refused format body := by
  intro hrefused
  rcases hrefused with hnone | ⟨obj', hread', hbad⟩
  · exact hnone obj hread
  · rw [hread] at hread'
    cases hread'
    rcases hbad with hbad | ⟨generations', hcount', hmany⟩
    · obtain ⟨e, herror⟩ := (generationCount_error_iff obj).2 hbad
      rw [hcount] at herror
      cases herror
    · rw [hcount] at hcount'
      cases hcount'
      omega

theorem forwarded_clampMembers {body out : Bytes} {obj : Members} (cap : UInt64)
    {generations : Nat} (hread : format.fromSlice body = some (.object obj))
    (hcount : generationCount obj = .ok generations) (hfew : generations ≤ 8)
    (hout : format.toVec (.object (clampMembers (perGeneration cap generations) obj)) = some out)
    (hback : format.fromSlice out =
      some (.object (clampMembers (perGeneration cap generations) obj))) :
    Forwarded format body cap out obj (clampMembers (perGeneration cap generations) obj)
      generations (perGeneration cap generations) := by
  have hcountOut : generationCount (clampMembers (perGeneration cap generations) obj) =
      .ok generations := by
    rw [generationCount_clampMembers, hcount]
  constructor
  · exact hread
  · exact hback
  · exact hcount
  · exact hcountOut
  · exact ⟨generationCount_pos hcount, hfew⟩
  · rw [perGeneration_toNat, Nat.max_comm]
  · exact budget_le cap generations
  · exact clampMembers_clamped _ obj
  · apply clampGenerationBudget_eq cap hback hcountOut hfew
    rw [clampMembers_idem]
    exact hout

/-- A body is turned down or forwarded, never forwarded with more than its budget. -/
theorem clamp_cases (hround : RoundTrips format) (body : Bytes) (cap : UInt64) :
    (∃ e, clampGenerationBudget format body cap = .error e ∧ Refused format body) ∨
    ∃ out obj obj' generations per, clampGenerationBudget format body cap = .ok out ∧
      ¬ Refused format body ∧ Forwarded format body cap out obj obj' generations per := by
  by_cases hobj : ∃ obj, format.fromSlice body = some (.object obj)
  · obtain ⟨obj, hread⟩ := hobj
    cases hcount : generationCount obj with
    | error e =>
      refine .inl ⟨e, ?_, .inr ⟨obj, hread, .inl ?_⟩⟩
      · simp only [clampGenerationBudget, hread, hcount]
      · exact (generationCount_error_iff obj).1 ⟨e, hcount⟩
    | ok generations =>
      by_cases hmany : 8 < generations
      · refine .inl ⟨"too many generations in one request (prompts x n)", ?_,
          .inr ⟨obj, hread, .inr ⟨generations, hcount, hmany⟩⟩⟩
        have hmax : maxGenerationsPerRequest < generations := hmany
        simp only [clampGenerationBudget, hread, hcount, if_pos hmax]
      · have hfew : generations ≤ 8 := Nat.not_lt.1 hmany
        obtain ⟨out, hout, hback⟩ :=
          hround _ (readable_clampMembers (perGeneration cap generations) (.parsed body obj hread))
        exact .inr ⟨out, obj, _, generations, _,
          clampGenerationBudget_eq cap hread hcount hfew hout,
          not_refused hread hcount hfew, forwarded_clampMembers cap hread hcount hfew hout hback⟩
  · refine .inl ⟨"request body must be a JSON object", ?_, .inl fun obj h => hobj ⟨obj, h⟩⟩
    unfold clampGenerationBudget
    split
    · rename_i obj h
      exact absurd ⟨obj, h⟩ hobj
    · rfl

/-- A proxied body is turned down exactly when its generations cannot be metered, and what is
forwarded of any other body stays within the budget. -/
theorem generation_budget (format : JsonFormat) (hround : RoundTrips format) (body : Bytes)
    (cap : UInt64) :
    ((∃ e, clampGenerationBudget format body cap = .error e) ↔ Refused format body) ∧
    ∀ out, clampGenerationBudget format body cap = .ok out →
      ∃ obj obj' generations per, Forwarded format body cap out obj obj' generations per := by
  rcases clamp_cases hround body cap with ⟨e, herror, hrefused⟩ | hforwarded
  · constructor
    · exact ⟨fun _ => hrefused, fun _ => ⟨e, herror⟩⟩
    · intro out hout
      rw [herror] at hout
      cases hout
  · obtain ⟨out, obj, obj', generations, per, hout, hnot, hsound⟩ := hforwarded
    constructor
    · constructor
      · intro herror
        obtain ⟨e, he⟩ := herror
        rw [hout] at he
        cases he
      · exact fun hrefused => absurd hrefused hnot
    · intro out' hout'
      rw [hout] at hout'
      cases hout'
      exact ⟨obj, obj', generations, per, hsound⟩

end Budget

section Sample

/-- The limits of an object. -/
abbrev Limits := Option UInt64 × Option UInt64 × Option UInt64

def setLimit (field : String) (limit : Option UInt64) (obj : Members) : Members :=
  match limit with
  | none => obj
  | some n => Members.insert field (.ofU64 n) obj

/-- A completion of four generations under the given limits. -/
def completion (limits : Limits) : Members :=
  setLimit "max_tokens" limits.1 (setLimit "max_completion_tokens" limits.2.1
    (setLimit "n_predict" limits.2.2 [("n", .ofU64 4), ("prompt", .string "x")]))

def limitOf (obj : Members) (field : String) : Option UInt64 :=
  (obj.lookup field).bind Value.asU64

def limitsOf (obj : Members) : Limits :=
  (limitOf obj "max_tokens", limitOf obj "max_completion_tokens", limitOf obj "n_predict")

theorem limitsOf_completion (limits : Limits) : limitsOf (completion limits) = limits := by
  obtain ⟨a, b, c⟩ := limits
  cases a <;> cases b <;> cases c <;> rfl

theorem insert_completion (limits : Limits) (n : UInt64) :
    Members.insert "max_tokens" (.ofU64 n) (completion limits) =
      completion (some n, limits.2) ∧
    Members.insert "max_completion_tokens" (.ofU64 n) (completion limits) =
      completion (limits.1, some n, limits.2.2) ∧
    Members.insert "n_predict" (.ofU64 n) (completion limits) =
      completion (limits.1, limits.2.1, some n) := by
  obtain ⟨a, b, c⟩ := limits
  cases a <;> cases b <;> cases c <;> exact ⟨rfl, rfl, rfl⟩

def plainText : Bytes := utf8 "\x7b\"n\":4,\"prompt\":\"x\"\x7d"

def clampedText : Bytes := utf8 "\x7b\"max_tokens\":200,\"n\":4,\"prompt\":\"x\"\x7d"

def limitCode : Option UInt64 → Nat
  | none => 0
  | some n => n.toNat + 1

def codeLimit (code : Nat) : Option UInt64 :=
  if code = 0 then none else some (UInt64.ofNat (code - 1))

theorem codeLimit_limitCode (limit : Option UInt64) : codeLimit (limitCode limit) = limit := by
  cases limit with
  | none => rfl
  | some n => simp [codeLimit, limitCode]

theorem limitCode_lt (limit : Option UInt64) : limitCode limit < 256 ^ 9 := by
  cases limit with
  | none => decide
  | some n =>
    have := n.toNat_lt
    simp only [limitCode]
    omega

/-- The text of a completion; other limits than those at hand have one of their own. -/
def printLimits (limits : Limits) : Bytes :=
  if limits = (none, none, none) then plainText
  else if limits = (some 200, none, none) then clampedText
  else beBytes 9 (limitCode limits.1) ++
    (beBytes 9 (limitCode limits.2.1) ++ beBytes 9 (limitCode limits.2.2))

def parseLimits (body : Bytes) : Option Limits :=
  if body = plainText then some (none, none, none)
  else if body = clampedText then some (some 200, none, none)
  else if body.length = 27 then
    some (codeLimit (ofBeBytes (body.take 9)), codeLimit (ofBeBytes ((body.drop 9).take 9)),
      codeLimit (ofBeBytes (body.drop 18)))
  else none

theorem limit_field (limit : Option UInt64) :
    codeLimit (ofBeBytes (beBytes 9 (limitCode limit))) = limit := by
  rw [ofBeBytes_beBytes, Nat.mod_eq_of_lt (limitCode_lt limit), codeLimit_limitCode]

theorem parseLimits_printLimits (limits : Limits) :
    parseLimits (printLimits limits) = some limits := by
  unfold printLimits
  split
  · rename_i heq
    rw [heq]
    rfl
  · split
    · rename_i heq
      rw [heq]
      decide
    · have hplain : plainText.length = 20 := by decide
      have hclamped : clampedText.length = 37 := by decide
      unfold parseLimits
      rw [if_neg, if_neg, if_pos]
      · simp [limit_field, List.drop_append, List.drop_of_length_le]
      · simp
      · intro heq
        have hlength := congrArg List.length heq
        simp [hclamped] at hlength
      · intro heq
        have hlength := congrArg List.length heq
        simp [hplain] at hlength

def sampleFormat : JsonFormat where
  fromSlice body := (parseLimits body).map fun limits => .object (completion limits)
  toVec
    | .object obj => some (printLimits (limitsOf obj))
    | _ => none

theorem sampleFormat_readable {obj : Members} (h : Readable sampleFormat obj) :
    ∃ limits, obj = completion limits := by
  induction h with
  | parsed body obj h =>
    obtain ⟨limits, -, hobj⟩ := Option.map_eq_some_iff.1 h
    cases hobj
    exact ⟨limits, rfl⟩
  | insert field hfield n obj _ ih =>
    obtain ⟨limits, rfl⟩ := ih
    obtain ⟨hmax, hcompletion, hpredict⟩ := insert_completion limits n
    simp only [generationLimitFields, List.mem_cons, List.not_mem_nil, or_false] at hfield
    rcases hfield with rfl | rfl | rfl
    · exact ⟨_, hmax⟩
    · exact ⟨_, hcompletion⟩
    · exact ⟨_, hpredict⟩

theorem sampleFormat_roundTrips : RoundTrips sampleFormat := by
  intro obj hreadable
  obtain ⟨limits, rfl⟩ := sampleFormat_readable hreadable
  refine ⟨printLimits limits, ?_, ?_⟩
  · simp only [sampleFormat, limitsOf_completion]
  · simp only [sampleFormat, parseLimits_printLimits, Option.map_some]

theorem generation_budget_sample :
    clampGenerationBudget sampleFormat plainText 800 = .ok clampedText ∧
    ∃ obj obj' generations per,
      Forwarded sampleFormat plainText 800 clampedText obj obj' generations per := by
  have hout : clampGenerationBudget sampleFormat plainText 800 = .ok clampedText := by decide
  exact ⟨hout, (generation_budget sampleFormat sampleFormat_roundTrips plainText 800).2 _ hout⟩

end Sample
end Gateway.LocalProxy
