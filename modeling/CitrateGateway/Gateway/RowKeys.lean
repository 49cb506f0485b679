import CitrateGateway.Gateway.Vault

/-!
# The key space of the store

Every row key is a namespace, a colon and what the namespace keeps rows by. A namespace has no
colon in it, and neither has the hash of a bearer token, so the first colons of a key tell its
parts from each other whatever comes after them.
-/

namespace Gateway.Vault
set_option autoImplicit false
open Words

section Hashes

/-- Lowercase hexadecimal, as long as the digest. -/
def BearerHash (s : String) : Prop :=
  s.toList.length = 64 ∧ ∀ c ∈ s.toList, c ∈ "0123456789abcdef".toList

/-- The hash that a key's rows are kept by. -/
def hashKeyId (sha256 : Bytes → H256) (keyId : String) : String :=
  hexEncode (wordBytes 32 (sha256 (utf8 keyId)))

theorem hexDigit_mem (n : Nat) : hexDigit n ∈ "0123456789abcdef".toList := by
  by_cases hn : n < 16
  · interval_cases n <;> decide
  · have hlen : "0123456789abcdef".toList.length = 16 := by decide
    rw [hexDigit, List.getD, List.getElem?_eq_none (by omega)]
    decide

theorem bearerHash_hashKeyId (sha256 : Bytes → H256) (keyId : String) :
    BearerHash (hashKeyId sha256 keyId) := by
  have hlen : (wordBytes 32 (sha256 (utf8 keyId))).length = 32 := wordBytes_length 32 _
  unfold BearerHash hashKeyId hexEncode
  generalize wordBytes 32 (sha256 (utf8 keyId)) = bs at hlen
  rw [String.toList_ofList]
  constructor
  · rw [List.length_flatMap]
    simp [hlen]
  · intro c hc
    obtain ⟨b, -, hc⟩ := List.mem_flatMap.1 hc
    rcases List.mem_pair.1 hc with rfl | rfl
    · exact hexDigit_mem _
    · exact hexDigit_mem _

theorem utf8_eq_flatMap (s : String) : utf8 s = s.toList.flatMap String.utf8EncodeChar := by
  conv => lhs; rw [← String.ofList_toList (s := s)]
  rw [utf8, String.toUTF8_eq_toByteArray, String.toByteArray_ofList, List.utf8Encode]
  simp

theorem utf8EncodeChar_hex : ∀ c ∈ "0123456789abcdef".toList,
    (String.utf8EncodeChar c).length = 1 ∧ 58 ∉ String.utf8EncodeChar c := by
  have hall : "0123456789abcdef".toList.all (fun c =>
      (String.utf8EncodeChar c).length = 1 ∧ 58 ∉ String.utf8EncodeChar c) = true := by
    decide +kernel
  intro c hc
  exact of_decide_eq_true (List.all_eq_true.1 hall c hc)

theorem BearerHash.length {h : String} (hh : BearerHash h) : (utf8 h).length = 64 := by
  have hones : h.toList.map (List.length ∘ String.utf8EncodeChar) = h.toList.map fun _ => 1 := by
    apply List.map_congr_left
    intro c hc
    exact (utf8EncodeChar_hex c (hh.2 c hc)).1
  have hsum : (h.toList.map fun c => (String.utf8EncodeChar c).length).sum = 64 := by
    have := congrArg List.sum hones
    rw [List.map_const', List.sum_replicate, hh.1] at this
    exact this
  rw [utf8_eq_flatMap, List.length_flatMap, hsum]

/-- No colon is in a hash. -/
theorem BearerHash.colon {h : String} (hh : BearerHash h) : 58 ∉ utf8 h := by
  rw [utf8_eq_flatMap, List.mem_flatMap]
  rintro ⟨c, hc, hmem⟩
  exact (utf8EncodeChar_hex c (hh.2 c hc)).2 hmem

end Hashes

section Parts

/-- The key of a row that the store itself writes: a hash in it is one of a bearer token. -/
def WellFormed : RowKey → Prop
  | .record hash | .bal hash | .mbudget hash _ | .quota (.key hash) _ => BearerHash hash
  | .batch _ | .batchset _ | .refundowed _ | .quota .memberPool _ | .memberMap _ => True

inductive Namespace where
  | record
  | bal
  | batch
  | batchset
  | refundowed
  | mbudget
  | quota
  | member
  deriving DecidableEq

def Namespace.text : Namespace → String
  | .record => "record"
  | .bal => "bal"
  | .batch => "batch"
  | .batchset => "batchset"
  | .refundowed => "refundowed"
  | .mbudget => "mbudget"
  | .quota => "quota"
  | .member => "member"

def keyNamespace : RowKey → Namespace
  | .record _ => .record
  | .bal _ => .bal
  | .batch _ => .batch
  | .batchset _ => .batchset
  | .refundowed _ => .refundowed
  | .mbudget _ _ => .mbudget
  | .quota _ _ => .quota
  | .memberMap _ => .member

/-- What comes after the first colon. -/
def keyBody : RowKey → String
  | .record hash | .bal hash => hash
  | .batch id | .batchset id | .refundowed id => id
  | .mbudget hash model => hash ++ ":" ++ model
  | .quota (.key hash) day => hash ++ ":" ++ day
  | .quota .memberPool day => "member-pool" ++ ":" ++ day
  | .memberMap subhash => subhash

theorem utf8_colon (s t : String) : utf8 (s ++ ":" ++ t) = utf8 s ++ 58 :: utf8 t := by
  have hcolon : utf8 ":" = [58] := by decide
  rw [utf8_append, utf8_append, hcolon, List.append_assoc, List.singleton_append]

theorem rowKey_eq (k : RowKey) : rowKey k = (keyNamespace k).text ++ ":" ++ keyBody k := by
  have hcolon : ∀ (ns s : String) {p : String}, p = ns ++ ":" → p ++ s = ns ++ ":" ++ s := by
    rintro ns s p rfl
    rfl
  cases k with
  | record hash => exact hcolon "record" hash (by decide)
  | bal hash => exact hcolon "bal" hash (by decide)
  | batch id => exact hcolon "batch" id (by decide)
  | batchset id => exact hcolon "batchset" id (by decide)
  | refundowed id => exact hcolon "refundowed" id (by decide)
  | mbudget hash model =>
    have h := hcolon "mbudget" (hash ++ ":" ++ model) (p := "mbudget:") (by decide)
    rw [← String.append_assoc, ← String.append_assoc] at h
    exact h
  | quota owner day =>
    cases owner with
    | key hash =>
      have h := hcolon "quota" (hash ++ ":" ++ day) (p := "quota:") (by decide)
      rw [← String.append_assoc, ← String.append_assoc] at h
      exact h
    | memberPool =>
      have h := hcolon "quota" ("member-pool" ++ ":" ++ day) (p := "quota:") (by decide)
      rw [← String.append_assoc, ← String.append_assoc] at h
      exact h
  | memberMap subhash => exact hcolon "member" subhash (by decide)

theorem utf8_rowKey (k : RowKey) :
    utf8 (rowKey k) = utf8 (keyNamespace k).text ++ 58 :: utf8 (keyBody k) := by
  rw [rowKey_eq, utf8_colon]

theorem Namespace.colon (ns : Namespace) : 58 ∉ utf8 ns.text := by
  cases ns <;> decide

theorem Namespace.text_inj {ns ns' : Namespace} (h : ns.text = ns'.text) : ns = ns' := by
  cases ns <;> cases ns' <;> first | rfl | exact absurd h (by decide)

/-- The first colon of a list tells what is before it from what is after it. -/
theorem append_colon_inj {a b r s : Bytes} (ha : 58 ∉ a) (hb : 58 ∉ b)
    (h : a ++ 58 :: r = b ++ 58 :: s) : a = b ∧ r = s := by
  induction a generalizing b with
  | nil =>
    cases b with
    | nil => exact ⟨rfl, (List.cons.inj h).2⟩
    | cons y b =>
      obtain ⟨rfl, -⟩ := List.cons.inj h
      simp at hb
  | cons x a ih =>
    cases b with
    | nil =>
      obtain ⟨rfl, -⟩ := List.cons.inj h
      simp at ha
    | cons y b =>
      rw [List.mem_cons, not_or] at ha hb
      obtain ⟨rfl, htail⟩ := List.cons.inj h
      obtain ⟨rfl, rfl⟩ := ih ha.2 hb.2 htail
      exact ⟨rfl, rfl⟩

theorem colon_prefix_iff {a b r : Bytes} (ha : 58 ∉ a) (hb : 58 ∉ b) :
    a ++ [58] <+: b ++ 58 :: r ↔ a = b := by
  constructor
  · rintro ⟨t, ht⟩
    rw [List.append_assoc, List.singleton_append] at ht
    exact (append_colon_inj ha hb ht).1
  · rintro rfl
    exact ⟨r, by simp⟩

end Parts

section Separation

theorem hash_ne_pool {h : String} (hh : BearerHash h) : utf8 h ≠ utf8 "member-pool" := by
  intro heq
  have hlen := hh.length
  rw [heq] at hlen
  revert hlen
  decide

/-- Rows of different namespaces, and of different arguments within one, have different keys. -/
theorem rowKey_inj {k k' : RowKey} (hk : WellFormed k) (hk' : WellFormed k')
    (h : rowKey k = rowKey k') : k = k' := by
  have hbytes := congrArg utf8 h
  rw [utf8_rowKey, utf8_rowKey] at hbytes
  obtain ⟨htext, hbody⟩ :=
    append_colon_inj (keyNamespace k).colon (keyNamespace k').colon hbytes
  have hns := Namespace.text_inj (utf8_inj htext)
  have hpair : ∀ {a b c d : String}, 58 ∉ utf8 a → 58 ∉ utf8 c →
      utf8 (a ++ ":" ++ b) = utf8 (c ++ ":" ++ d) → a = c ∧ b = d := by
    intro a b c d ha hc heq
    rw [utf8_colon, utf8_colon] at heq
    obtain ⟨h₁, h₂⟩ := append_colon_inj ha hc heq
    exact ⟨utf8_inj h₁, utf8_inj h₂⟩
  have hpool : 58 ∉ utf8 "member-pool" := by decide
  cases k <;> cases k' <;> simp only [keyNamespace, reduceCtorEq] at hns
  · exact congrArg _ (utf8_inj hbody)
  · exact congrArg _ (utf8_inj hbody)
  · exact congrArg _ (utf8_inj hbody)
  · exact congrArg _ (utf8_inj hbody)
  · exact congrArg _ (utf8_inj hbody)
  · obtain ⟨rfl, rfl⟩ := hpair hk.colon hk'.colon hbody
    rfl
  · rename_i owner day owner' day'
    cases owner with
    | key hash =>
      cases owner' with
      | key hash' =>
        obtain ⟨rfl, rfl⟩ := hpair (BearerHash.colon hk) (BearerHash.colon hk') hbody
        rfl
      | memberPool =>
        obtain ⟨hhash, -⟩ := hpair (BearerHash.colon hk) hpool hbody
        exact absurd (congrArg utf8 hhash) (hash_ne_pool hk)
    | memberPool =>
      cases owner' with
      | key hash' =>
        obtain ⟨hhash, -⟩ := hpair hpool (BearerHash.colon hk') hbody
        exact absurd (congrArg utf8 hhash.symm) (hash_ne_pool hk')
      | memberPool =>
        obtain ⟨-, rfl⟩ := hpair hpool hpool hbody
        rfl
  · exact congrArg _ (utf8_inj hbody)

theorem utf8_rowKey_inj {k k' : RowKey} (hk : WellFormed k) (hk' : WellFormed k')
    (h : utf8 (rowKey k) = utf8 (rowKey k')) : k = k' :=
  rowKey_inj hk hk' (utf8_inj h)

/-- What the keys of a namespace begin with. -/
def Namespace.start (ns : Namespace) : Bytes := utf8 (ns.text ++ ":")

theorem Namespace.start_eq (ns : Namespace) : ns.start = utf8 ns.text ++ [58] := by
  have hcolon : utf8 ":" = [58] := by decide
  rw [start, utf8_append, hcolon]

theorem start_prefix_iff {ns : Namespace} {k : RowKey} :
    ns.start <+: utf8 (rowKey k) ↔ keyNamespace k = ns := by
  rw [ns.start_eq, utf8_rowKey, colon_prefix_iff ns.colon (keyNamespace k).colon]
  constructor
  · intro h
    exact (Namespace.text_inj (utf8_inj h)).symm
  · rintro rfl
    rfl

theorem drop_start (k : RowKey) :
    (utf8 (rowKey k)).drop (keyNamespace k).start.length = utf8 (keyBody k) := by
  have hsplit : utf8 (rowKey k) = (keyNamespace k).start ++ utf8 (keyBody k) := by
    rw [utf8_rowKey, Namespace.start_eq, List.append_assoc, List.singleton_append]
  rw [hsplit, List.drop_left]

theorem start_not_marker (ns : Namespace) : ¬ ns.start <+: encMarkerKey := by
  cases ns <;> decide

/-- `mbudget_prefix`. -/
def mbudgetPrefix (hash : String) : String := "mbudget:" ++ hash ++ ":"

theorem utf8_mbudgetPrefix (hash : String) :
    utf8 (mbudgetPrefix hash) = Namespace.mbudget.start ++ (utf8 hash ++ [58]) := by
  have hcolon : utf8 ":" = [58] := by decide
  have hstart : "mbudget:" = "mbudget" ++ ":" := by decide
  rw [mbudgetPrefix, utf8_append, utf8_append, hcolon, hstart, List.append_assoc]
  rfl

theorem mbudgetPrefix_not_marker (hash : String) :
    ¬ utf8 (mbudgetPrefix hash) <+: encMarkerKey := by
  rw [utf8_mbudgetPrefix]
  intro h
  exact start_not_marker .mbudget ((List.prefix_append _ _).trans h)

/-- The budgets of a key begin with its prefix, and no other row does. -/
theorem mbudgetPrefix_iff {hash : String} (hh : BearerHash hash) {k : RowKey}
    (hk : WellFormed k) :
    utf8 (mbudgetPrefix hash) <+: utf8 (rowKey k) ↔ ∃ model, k = .mbudget hash model := by
  rw [utf8_mbudgetPrefix]
  constructor
  · intro h
    have hns := start_prefix_iff.1 ((List.prefix_append _ _).trans h)
    cases k <;> simp only [keyNamespace, reduceCtorEq] at hns
    rename_i hash' model
    have hdrop := drop_start (.mbudget hash' model)
    obtain ⟨t, ht⟩ := h
    rw [← ht, List.append_assoc, keyNamespace, List.drop_left, keyBody, utf8_colon,
      List.append_assoc, List.singleton_append] at hdrop
    obtain ⟨heq, -⟩ := append_colon_inj hh.colon (BearerHash.colon hk) hdrop
    exact ⟨model, by rw [utf8_inj heq]⟩
  · rintro ⟨model, rfl⟩
    refine ⟨utf8 model, ?_⟩
    rw [utf8_rowKey, keyBody, utf8_colon, keyNamespace, Namespace.start_eq]
    simp

theorem drop_mbudgetPrefix (hash model : String) :
    (utf8 (rowKey (.mbudget hash model))).drop (utf8 (mbudgetPrefix hash)).length =
      utf8 model := by
  have hsplit : utf8 (rowKey (.mbudget hash model)) = utf8 (mbudgetPrefix hash) ++ utf8 model := by
    rw [utf8_rowKey, keyBody, utf8_colon, keyNamespace, utf8_mbudgetPrefix, Namespace.start_eq]
    simp
  rw [hsplit, List.drop_left]

end Separation

end Gateway.Vault
