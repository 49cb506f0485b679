import CitrateGateway.Gateway.Dispatch

/-!
# The estimate of the input tokens

A message costs a token for every three bytes, rounded up, and four for what surrounds it. The
running total stops at 64 bits and the estimate at 32, so up to there it is the sum of the
costs: it covers the prompt that the provider is sent, and no way to cut the same text into
messages makes it smaller.
-/

namespace Gateway
set_option autoImplicit false
open Words

section Costs

def ChatMessage.bodyBytes (m : ChatMessage) : Nat := m.role.utf8ByteSize + m.content.utf8ByteSize

def ChatMessage.tokens (m : ChatMessage) : Nat := (m.bodyBytes + 2) / 3 + 4

def tokenSum (messages : List ChatMessage) : Nat := (messages.map ChatMessage.tokens).sum

/-- The largest estimate. -/
def estimateLimit : UInt32 := 0xffffffff

theorem tokenSum_append (messages messages' : List ChatMessage) :
    tokenSum (messages ++ messages') = tokenSum messages + tokenSum messages' := by
  simp [tokenSum]

theorem tokenSum_cons (m : ChatMessage) (messages : List ChatMessage) :
    tokenSum (m :: messages) = m.tokens + tokenSum messages := by
  simp [tokenSum]

theorem tokensStep_eq (total : Nat) (m : ChatMessage) :
    tokensStep total m = min (total + m.tokens) (2 ^ 64 - 1) := by
  simp only [tokensStep, saturatingAdd64, ChatMessage.tokens, ChatMessage.bodyBytes]
  omega

theorem foldl_tokensStep (messages : List ChatMessage) (total : Nat) (h : total ≤ 2 ^ 64 - 1) :
    messages.foldl tokensStep total = min (total + tokenSum messages) (2 ^ 64 - 1) := by
  induction messages generalizing total with
  | nil =>
    simp only [List.foldl_nil, tokenSum, List.map_nil, List.sum_nil]
    omega
  | cons m messages ih =>
    have hstep := tokensStep_eq total m
    rw [List.foldl_cons, ih _ (by omega), hstep, tokenSum_cons]
    omega

/-- The estimate is the sum of the costs, between the floor and the largest value. -/
theorem estimateInputTokens_toNat (messages : List ChatMessage) :
    (estimateInputTokens messages).toNat =
      min (max (tokenSum messages) assumedInputTokens.toNat) (2 ^ 32 - 1) := by
  have hfloor : assumedInputTokens.toNat = 256 := rfl
  have hsum := foldl_tokensStep messages 0 (by omega)
  simp only [estimateInputTokens, hsum, hfloor]
  split
  · rw [UInt32.toNat_ofNat_of_lt' (by decide)]
    omega
  · rw [UInt32.toNat_ofNat_of_lt' (by unfold UInt32.size; omega)]
    omega

theorem estimate_le_of_sum_le {messages messages' : List ChatMessage}
    (h : tokenSum messages ≤ tokenSum messages') :
    estimateInputTokens messages ≤ estimateInputTokens messages' := by
  rw [UInt32.le_iff_toNat_le, estimateInputTokens_toNat, estimateInputTokens_toNat]
  omega

end Costs

section Machine

/-- An addition of 64-bit numbers; without a result it overflows. -/
def checkedAdd64 (a b : Nat) : Option Nat := if a + b < 2 ^ 64 then some (a + b) else none

def checkedTokens : List ChatMessage → Nat → Option Nat
  | [], total => some total
  | m :: messages, total =>
    (checkedAdd64 m.role.utf8ByteSize m.content.utf8ByteSize).bind fun bodyBytes =>
      checkedTokens messages
        (saturatingAdd64 (saturatingAdd64 total ((bodyBytes + 2) / 3)) 4)

/-- The estimate, with an overflow of its one unguarded addition told apart. -/
def checkedEstimate (messages : List ChatMessage) : Option UInt32 :=
  (checkedTokens messages 0).map fun total =>
    let estimate := max total assumedInputTokens.toNat
    if estimate > 2 ^ 32 - 1 then UInt32.ofNat (2 ^ 32 - 1) else UInt32.ofNat estimate

/-- Texts are shorter than `2 ^ 63` bytes on every target. -/
def ChatMessage.Short (m : ChatMessage) : Prop :=
  m.role.utf8ByteSize < 2 ^ 63 ∧ m.content.utf8ByteSize < 2 ^ 63

theorem checkedTokens_eq {messages : List ChatMessage} (h : ∀ m ∈ messages, m.Short)
    (total : Nat) : checkedTokens messages total = some (messages.foldl tokensStep total) := by
  induction messages generalizing total with
  | nil => rfl
  | cons m messages ih =>
    obtain ⟨hrole, hcontent⟩ := h m (by simp)
    have hadd : checkedAdd64 m.role.utf8ByteSize m.content.utf8ByteSize =
        some (m.role.utf8ByteSize + m.content.utf8ByteSize) := if_pos (by omega)
    rw [checkedTokens, hadd, Option.bind_some, ih fun m' hm' => h m' (by simp [hm']),
      List.foldl_cons]
    rfl

theorem checkedEstimate_eq {messages : List ChatMessage} (h : ∀ m ∈ messages, m.Short) :
    checkedEstimate messages = some (estimateInputTokens messages) := by
  rw [checkedEstimate, checkedTokens_eq h, Option.map_some]
  rfl

end Machine

section Prompt

theorem utf8ByteSize_intercalate (sep text : String) (texts : List String) :
    (sep.intercalate (text :: texts)).utf8ByteSize =
      ((text :: texts).map String.utf8ByteSize).sum + texts.length * sep.utf8ByteSize := by
  induction texts generalizing text with
  | nil => simp
  | cons next texts ih =>
    rw [String.intercalate_cons_cons, String.utf8ByteSize_append, String.utf8ByteSize_append, ih]
    simp only [List.map_cons, List.sum_cons, List.length_cons, Nat.succ_mul]
    omega

def promptLine (m : ChatMessage) : String := m.role ++ ": " ++ m.content

theorem promptLine_size (m : ChatMessage) : (promptLine m).utf8ByteSize = m.bodyBytes + 2 := by
  have hcolon : (": " : String).utf8ByteSize = 2 := by decide
  rw [promptLine, String.utf8ByteSize_append, String.utf8ByteSize_append, hcolon,
    ChatMessage.bodyBytes]
  omega

theorem promptLines_le (messages : List ChatMessage) :
    ((messages.map promptLine).map String.utf8ByteSize).sum + 10 * messages.length ≤
      3 * tokenSum messages := by
  induction messages with
  | nil => simp
  | cons m messages ih =>
    have hline := promptLine_size m
    have hcost : m.bodyBytes + 12 ≤ 3 * m.tokens := by
      unfold ChatMessage.tokens
      omega
    rw [tokenSum_cons, List.map_cons, List.map_cons, List.sum_cons, List.length_cons, hline]
    omega

/-- Three bytes a token cover the prompt, with its prefixes and line breaks. -/
theorem buildPrompt_size_le (messages : List ChatMessage) :
    (buildPrompt messages).utf8ByteSize ≤ 3 * tokenSum messages := by
  have hlines := promptLines_le messages
  have hbreak : ("\n" : String).utf8ByteSize = 1 := by decide
  cases messages with
  | nil => decide
  | cons m messages =>
    have hprompt : buildPrompt (m :: messages) =
        "\n".intercalate (promptLine m :: messages.map promptLine) := rfl
    rw [hprompt, utf8ByteSize_intercalate, hbreak, ← List.map_cons (f := promptLine),
      List.length_map]
    rw [List.length_cons] at hlines
    omega

end Prompt

section Splitting

/-- Joining messages saves four tokens for each of them but one. -/
theorem tokens_le_of_bytes {m : ChatMessage} {parts : List ChatMessage} (hparts : parts ≠ [])
    (hbytes : m.bodyBytes ≤ (parts.map ChatMessage.bodyBytes).sum + 12 * (parts.length - 1)) :
    m.tokens ≤ tokenSum parts := by
  have hsum : (parts.map ChatMessage.bodyBytes).sum + 12 * parts.length ≤ 3 * tokenSum parts := by
    clear hbytes hparts
    induction parts with
    | nil => simp
    | cons p parts ih =>
      have hcost : p.bodyBytes + 12 ≤ 3 * p.tokens := by
        unfold ChatMessage.tokens
        omega
      rw [tokenSum_cons, List.map_cons, List.sum_cons, List.length_cons]
      omega
  have hlength : 0 < parts.length := List.length_pos_iff.2 hparts
  unfold ChatMessage.tokens
  omega

theorem joined_bytes {parts : List ChatMessage} (hparts : parts ≠ []) (role sep : String)
    (hrole : role.utf8ByteSize ≤ (parts.map fun p => p.role.utf8ByteSize).sum)
    (hsep : sep.utf8ByteSize ≤ 12) :
    (⟨role, sep.intercalate (parts.map ChatMessage.content)⟩ : ChatMessage).bodyBytes ≤
      (parts.map ChatMessage.bodyBytes).sum + 12 * (parts.length - 1) := by
  cases parts with
  | nil => exact absurd rfl hparts
  | cons p parts =>
    have hsum : ((p :: parts).map ChatMessage.bodyBytes).sum =
        ((p :: parts).map fun q => q.role.utf8ByteSize).sum +
          (((p :: parts).map ChatMessage.content).map String.utf8ByteSize).sum := by
      rw [List.map_map]
      exact List.sum_map_add
    have hbreaks : parts.length * sep.utf8ByteSize ≤ parts.length * 12 :=
      Nat.mul_le_mul_left _ hsep
    have hcontent := utf8ByteSize_intercalate sep p.content (parts.map ChatMessage.content)
    rw [← List.map_cons (f := ChatMessage.content), List.length_map] at hcontent
    simp only [ChatMessage.bodyBytes, hcontent] at hsum ⊢
    rw [hsum, List.length_cons]
    omega

end Splitting

section Conservative

/-- The estimate does not overflow, has its floor, covers the prompt unless it is at its limit,
and grows with the messages: with more of them, with longer ones, and with a text that is cut
into several (even where a separator of up to twelve bytes is lost at each cut). -/
theorem estimate_conservative :
    (∀ messages, (∀ m ∈ messages, m.Short) →
      checkedEstimate messages = some (estimateInputTokens messages)) ∧
    (∀ messages, assumedInputTokens ≤ estimateInputTokens messages) ∧
    (∀ messages, estimateInputTokens messages ≠ estimateLimit →
      (buildPrompt messages).utf8ByteSize ≤ 3 * (estimateInputTokens messages).toNat) ∧
    (∀ before m after,
      estimateInputTokens (before ++ after) ≤ estimateInputTokens (before ++ m :: after)) ∧
    (∀ before (m m' : ChatMessage) after, m.role.utf8ByteSize ≤ m'.role.utf8ByteSize →
      m.content.utf8ByteSize ≤ m'.content.utf8ByteSize →
        estimateInputTokens (before ++ m :: after) ≤
          estimateInputTokens (before ++ m' :: after)) ∧
    (∀ before parts after (role sep : String), parts ≠ [] →
      role.utf8ByteSize ≤ (parts.map fun p => p.role.utf8ByteSize).sum →
        sep.utf8ByteSize ≤ 12 →
          estimateInputTokens
              (before ++ ⟨role, sep.intercalate (parts.map ChatMessage.content)⟩ :: after) ≤
            estimateInputTokens (before ++ parts ++ after)) := by
  refine ⟨fun messages => checkedEstimate_eq, ?_, ?_, ?_, ?_, ?_⟩
  · intro messages
    have hfloor : assumedInputTokens.toNat = 256 := rfl
    rw [UInt32.le_iff_toNat_le, estimateInputTokens_toNat]
    omega
  · intro messages hlimit
    have hsize := buildPrompt_size_le messages
    have htokens := estimateInputTokens_toNat messages
    have hbelow : (estimateInputTokens messages).toNat ≠ 2 ^ 32 - 1 :=
      fun h => hlimit (UInt32.toNat_inj.1 h)
    omega
  · intro before m after
    apply estimate_le_of_sum_le
    rw [tokenSum_append, tokenSum_append, tokenSum_cons]
    omega
  · intro before m m' after hrole hcontent
    apply estimate_le_of_sum_le
    have hcost : m.tokens ≤ m'.tokens := by
      unfold ChatMessage.tokens ChatMessage.bodyBytes
      omega
    rw [tokenSum_append, tokenSum_append, tokenSum_cons, tokenSum_cons]
    omega
  · intro before parts after role sep hparts hrole hsep
    apply estimate_le_of_sum_le
    have hcost := tokens_le_of_bytes hparts (joined_bytes hparts role sep hrole hsep)
    rw [tokenSum_append, tokenSum_append, tokenSum_append, tokenSum_cons]
    omega

theorem estimate_conservative_sample :
    (buildPrompt [⟨"user", "hello"⟩]).utf8ByteSize ≤
        3 * (estimateInputTokens [⟨"user", "hello"⟩]).toNat ∧
      checkedEstimate [⟨"user", "hello"⟩] = some (estimateInputTokens [⟨"user", "hello"⟩]) ∧
      estimateInputTokens [⟨"user", "hello"⟩] ≤
        estimateInputTokens [⟨"user", "hel"⟩, ⟨"user", "lo"⟩] := by
  refine ⟨estimate_conservative.2.2.1 _ (by decide), estimate_conservative.1 _ ?_, ?_⟩
  · intro m hm
    rw [List.mem_singleton.1 hm]
    exact ⟨by decide, by decide⟩
  · exact estimate_conservative.2.2.2.2.2 [] [⟨"user", "hel"⟩, ⟨"user", "lo"⟩] [] "user" ""
      (by simp) (by decide) (by decide)

end Conservative
end Gateway
