import CitrateGateway.Gateway.KeyStore
import CitrateGateway.Gateway.StoreFiles

/-!
# Value encryption at rest

Every value is sealed under the master key and its own row key before it reaches the database. The
marker row tells an encrypted store from a plaintext one, and under which key it is; opening a
store enforces it.
-/

namespace Gateway.Vault
set_option autoImplicit false
open Words Effects Durable Files

section Text

/-- A character whose encoding has begun: its bits so far, how many bytes come after the next one,
and the bounds of the next one. -/
structure Partial where
  code : Nat
  more : Nat
  low : UInt8
  high : UInt8

def replacement : Char := Char.ofNat 0xFFFD

/-- What a byte begins: a character of its own, an encoding, or nothing. -/
def beginChar (b : UInt8) : List Char × Option Partial :=
  if b < 0x80 then ([Char.ofNat b.toNat], none)
  else if 0xC2 ≤ b ∧ b ≤ 0xDF then ([], some ⟨b.toNat - 0xC0, 0, 0x80, 0xBF⟩)
  else if b = 0xE0 then ([], some ⟨0, 1, 0xA0, 0xBF⟩)
  else if b = 0xED then ([], some ⟨0xD, 1, 0x80, 0x9F⟩)
  else if 0xE1 ≤ b ∧ b ≤ 0xEF then ([], some ⟨b.toNat - 0xE0, 1, 0x80, 0xBF⟩)
  else if b = 0xF0 then ([], some ⟨0, 2, 0x90, 0xBF⟩)
  else if 0xF1 ≤ b ∧ b ≤ 0xF3 then ([], some ⟨b.toNat - 0xF0, 2, 0x80, 0xBF⟩)
  else if b = 0xF4 then ([], some ⟨4, 2, 0x80, 0x8F⟩)
  else ([replacement], none)

/-- An encoding that breaks off is replaced as a whole, and the byte that broke it begins anew. -/
def lossyChars : Option Partial → Bytes → List Char
  | none, [] => []
  | some _, [] => [replacement]
  | none, b :: bs => (beginChar b).1 ++ lossyChars (beginChar b).2 bs
  | some p, b :: bs =>
    if p.low ≤ b ∧ b ≤ p.high then
      let code := p.code * 64 + (b.toNat - 0x80)
      if p.more = 0 then Char.ofNat code :: lossyChars none bs
      else lossyChars (some ⟨code, p.more - 1, 0x80, 0xBF⟩) bs
    else replacement :: ((beginChar b).1 ++ lossyChars (beginChar b).2 bs)

def fromUtf8Lossy (bytes : Bytes) : String := String.ofList (lossyChars none bytes)

end Text

section Lossy

theorem lossyChars_begin {b : UInt8} {p : Partial} (h : beginChar b = ([], some p)) (bs : Bytes) :
    lossyChars none (b :: bs) = lossyChars (some p) bs := by
  rw [lossyChars, h]
  rfl

theorem lossyChars_more {p : Partial} {b : UInt8} (hlow : p.low ≤ b) (hhigh : b ≤ p.high)
    {n : Nat} (hmore : p.more = n + 1) (bs : Bytes) :
    lossyChars (some p) (b :: bs) =
      lossyChars (some ⟨p.code * 64 + (b.toNat - 0x80), n, 0x80, 0xBF⟩) bs := by
  rw [lossyChars, if_pos ⟨hlow, hhigh⟩, if_neg (by omega), hmore]
  rfl

theorem lossyChars_last {p : Partial} {b : UInt8} (hlow : p.low ≤ b) (hhigh : b ≤ p.high)
    (hmore : p.more = 0) (bs : Bytes) :
    lossyChars (some p) (b :: bs) =
      Char.ofNat (p.code * 64 + (b.toNat - 0x80)) :: lossyChars none bs := by
  rw [lossyChars, if_pos ⟨hlow, hhigh⟩, if_pos hmore]

theorem toNat_ofNat_byte {n : Nat} (h : n < 256) : (UInt8.ofNat n).toNat = n := by
  rw [UInt8.toNat_ofNat']
  omega

theorem byte_le {n : Nat} (h : n < 256) (k : UInt8) : k ≤ UInt8.ofNat n ↔ k.toNat ≤ n := by
  rw [UInt8.le_iff_toNat_le, toNat_ofNat_byte h]

theorem le_byte {n : Nat} (h : n < 256) (k : UInt8) : UInt8.ofNat n ≤ k ↔ n ≤ k.toNat := by
  rw [UInt8.le_iff_toNat_le, toNat_ofNat_byte h]

theorem beginChar_ascii {n : Nat} (h : n < 0x80) :
    beginChar (UInt8.ofNat n) = ([Char.ofNat n], none) := by
  have hn := toNat_ofNat_byte (n := n) (by omega)
  rw [beginChar, if_pos (by rw [UInt8.lt_iff_toNat_lt, hn]; exact h), hn]

theorem beginChar_two {n : Nat} (hlow : 2 ≤ n) (h : n < 32) :
    beginChar (UInt8.ofNat (n + 0xc0)) = ([], some ⟨n, 0, 0x80, 0xBF⟩) := by
  interval_cases n <;> rfl

theorem beginChar_three {n : Nat} (h : n < 16) :
    beginChar (UInt8.ofNat (n + 0xe0)) =
      ([], some ⟨n, 1, if n = 0 then 0xA0 else 0x80, if n = 13 then 0x9F else 0xBF⟩) := by
  interval_cases n <;> rfl

theorem beginChar_four {n : Nat} (h : n < 5) :
    beginChar (UInt8.ofNat (n + 0xf0)) =
      ([], some ⟨n, 2, if n = 0 then 0x90 else 0x80, if n = 4 then 0x8F else 0xBF⟩) := by
  interval_cases n <;> rfl

/-- Six more bits of a character. -/
theorem lossyChars_next {p : Partial} {n k : Nat} (hn : n < 64) (hlow : p.low.toNat ≤ n + 0x80)
    (hhigh : n + 0x80 ≤ p.high.toNat) (hmore : p.more = k + 1) (bs : Bytes) :
    lossyChars (some p) (UInt8.ofNat (n + 0x80) :: bs) =
      lossyChars (some ⟨p.code * 64 + n, k, 0x80, 0xBF⟩) bs := by
  have hbyte := toNat_ofNat_byte (n := n + 0x80) (by omega)
  rw [lossyChars_more ((byte_le (by omega) _).2 hlow) ((le_byte (by omega) _).2 hhigh) hmore, hbyte,
    Nat.add_sub_cancel]

theorem lossyChars_end {p : Partial} {n : Nat} (hn : n < 64) (hlow : p.low.toNat ≤ n + 0x80)
    (hhigh : n + 0x80 ≤ p.high.toNat) (hmore : p.more = 0) (bs : Bytes) :
    lossyChars (some p) (UInt8.ofNat (n + 0x80) :: bs) =
      Char.ofNat (p.code * 64 + n) :: lossyChars none bs := by
  have hbyte := toNat_ofNat_byte (n := n + 0x80) (by omega)
  rw [lossyChars_last ((byte_le (by omega) _).2 hlow) ((le_byte (by omega) _).2 hhigh) hmore, hbyte,
    Nat.add_sub_cancel]

theorem lossyChars_char (c : Char) (bs : Bytes) :
    lossyChars none (String.utf8EncodeChar c ++ bs) = c :: lossyChars none bs := by
  have hvalid : c.val.toNat < 0xd800 ∨ 0xdfff < c.val.toNat ∧ c.val.toNat < 0x110000 := c.valid
  have hchar : ∀ n, n = c.val.toNat → Char.ofNat n = c := by
    rintro n rfl
    exact Char.ofNat_toNat c
  unfold String.utf8EncodeChar
  generalize c.val.toNat = v at hvalid hchar
  dsimp only
  split
  · rw [List.singleton_append, lossyChars, beginChar_ascii (by omega), hchar v rfl]
    rfl
  split
  · have hfirst : v / 64 % 0x20 = v / 64 := Nat.mod_eq_of_lt (by omega)
    rw [List.cons_append, List.singleton_append, hfirst,
      lossyChars_begin (beginChar_two (by omega) (by omega)),
      lossyChars_end (by omega) (by simp) (by simp; omega) rfl, hchar _ (by simp; omega)]
  split
  · have hfirst : v / 4096 % 0x10 = v / 4096 := Nat.mod_eq_of_lt (by omega)
    have hlow : (if v / 4096 = 0 then 0xA0 else 0x80 : UInt8).toNat ≤ v / 64 % 0x40 + 0x80 := by
      split
      · simp only [UInt8.reduceToNat]
        omega
      · simp
    have hhigh : v / 64 % 0x40 + 0x80 ≤ (if v / 4096 = 13 then 0x9F else 0xBF : UInt8).toNat := by
      split <;> simp only [UInt8.reduceToNat] <;> omega
    rw [List.cons_append, List.cons_append, List.singleton_append, hfirst,
      lossyChars_begin (beginChar_three (by omega)),
      lossyChars_next (k := 0) (by omega) hlow hhigh rfl,
      lossyChars_end (by omega) (by simp) (by simp; omega) rfl, hchar _ (by dsimp only; omega)]
  · have hfirst : v / 262144 % 0x08 = v / 262144 := Nat.mod_eq_of_lt (by omega)
    have hlow : (if v / 262144 = 0 then 0x90 else 0x80 : UInt8).toNat ≤
        v / 4096 % 0x40 + 0x80 := by
      split
      · simp only [UInt8.reduceToNat]
        omega
      · simp
    have hhigh : v / 4096 % 0x40 + 0x80 ≤
        (if v / 262144 = 4 then 0x8F else 0xBF : UInt8).toNat := by
      split <;> simp only [UInt8.reduceToNat] <;> omega
    rw [List.cons_append, List.cons_append, List.cons_append, List.singleton_append, hfirst,
      lossyChars_begin (beginChar_four (by omega)),
      lossyChars_next (k := 1) (by omega) hlow hhigh rfl,
      lossyChars_next (k := 0) (by omega) (by simp) (by simp; omega) rfl,
      lossyChars_end (by omega) (by simp) (by simp; omega) rfl, hchar _ (by dsimp only; omega)]

/-- The text of the bytes of a text. -/
theorem fromUtf8Lossy_utf8 (s : String) : fromUtf8Lossy (utf8 s) = s := by
  have hbytes : utf8 s = s.toList.flatMap String.utf8EncodeChar := by
    conv => lhs; rw [← String.ofList_toList (s := s)]
    rw [utf8, String.toUTF8_eq_toByteArray, String.toByteArray_ofList, List.utf8Encode]
    simp
  have hchars : ∀ cs : List Char, lossyChars none (cs.flatMap String.utf8EncodeChar) = cs := by
    intro cs
    induction cs with
    | nil => rfl
    | cons c cs ih => rw [List.flatMap_cons, lossyChars_char, ih]
  rw [fromUtf8Lossy, hbytes, hchars, String.ofList_toList]

end Lossy

section RowKeys

def recordKey (hash : String) : String := "record:" ++ hash

def balKey (hash : String) : String := "bal:" ++ hash

def mbudgetKey (hash model : String) : String := "mbudget:" ++ hash ++ ":" ++ model

def batchKey (id : String) : String := "batch:" ++ id

def batchSettledKey (id : String) : String := "batchset:" ++ id

def refundOwedKey (id : String) : String := "refundowed:" ++ id

def quotaKey (hash day : String) : String := "quota:" ++ hash ++ ":" ++ day

def memberPoolKey (day : String) : String := "quota:member-pool:" ++ day

def memberMapKey (subhash : String) : String := "member:" ++ subhash

/-- The key of a row as the database has it. -/
def rowKey : RowKey → String
  | .record hash => recordKey hash
  | .bal hash => balKey hash
  | .batch id => batchKey id
  | .batchset id => batchSettledKey id
  | .refundowed id => refundOwedKey id
  | .mbudget hash model => mbudgetKey hash model
  | .quota (.key hash) day => quotaKey hash day
  | .quota .memberPool day => memberPoolKey day
  | .memberMap subhash => memberMapKey subhash

end RowKeys

section Sealing

/-- The key derivation and the AEAD; a nonce stands for its twelve bytes, a key for its 32. -/
structure StoreCrypto where
  deriveKey : String → H256 → H256
  encrypt : (key : H256) → (nonce : BitVec 96) → (msg aad : Bytes) → Option Bytes
  decrypt : (key : H256) → (nonce : BitVec 96) → (ct aad : Bytes) → Option Bytes

def encMarkerKey : Bytes := utf8 "meta:enc"

def encMarkerPlaintext : Bytes := utf8 "citrate-gateway-store-enc-v1"

def kdfDomainPrefix : String := "citrate-gateway/store/ns/v1:"

/-- The bytes before the first colon; a key without one is its own namespace. -/
def namespaceOf (recordKey : Bytes) : Bytes :=
  match recordKey.findIdx? (· == 58) with
  | some i => recordKey.take i
  | none => recordKey

variable (crypto : StoreCrypto)

/-- The key of the cipher of a namespace. -/
def cipherFor (master : H256) (ns : Bytes) : H256 :=
  crypto.deriveKey (kdfDomainPrefix ++ fromUtf8Lossy ns) master

/-- Sealing under a nonce that was drawn. -/
def sealWith (master : H256) (nonce : BitVec 96) (recordKey plaintext : Bytes) :
    Except CryptError Bytes :=
  match crypto.encrypt (cipherFor crypto master (namespaceOf recordKey)) nonce plaintext
      recordKey with
  | none => .error .crypto
  | some ct => .ok (wordBytes 12 nonce ++ ct)

def sealValue (master : H256) (recordKey plaintext : Bytes) : M (Except CryptError Bytes) := do
  match ← getrandom with
  | none => return .error .rng
  | some nonce => return sealWith crypto master nonce recordKey plaintext

def openValue (master : H256) (recordKey raw : Bytes) : Except CryptError Bytes :=
  if raw.length < 12 then .error .corrupt
  else
    match crypto.decrypt (cipherFor crypto master (namespaceOf recordKey))
        (ofWordBytes 96 (raw.take 12)) (raw.drop 12) recordKey with
    | none => .error .crypto
    | some plaintext => .ok plaintext

end Sealing

section Store
variable (crypto : StoreCrypto)

/-- An open store. -/
structure Store where
  db : Nat
  master : H256
  deriving DecidableEq

def checkOrInitEncMarker (store : Store) : M (Except StoreError Unit) := do
  match ← get store.db encMarkerKey with
  | .error e => return .error (.rocks e)
  | .ok (some raw) =>
    match openValue crypto store.master encMarkerKey raw with
    | .error _ => return .error .wrongKey
    | .ok pt => return if pt ≠ encMarkerPlaintext then .error .wrongKey else .ok ()
  | .ok none =>
    -- an item that could not be read counts as one
    if (← iterator store.db).head?.isSome then return .error .plaintextStore
    else
      match ← sealValue crypto store.master encMarkerKey encMarkerPlaintext with
      | .error e => return .error (.crypt e)
      | .ok sealed =>
        match ← put store.db encMarkerKey sealed true with
        | .error e => return .error (.rocks e)
        | .ok () => return .ok ()

/-- `PersistentKeyStore::open`; the database is closed when the marker is refused. -/
def openStore (path : String) (master : H256) : M (Except StoreError Store) := do
  match ← openDb path true with
  | .error e => return .error (.rocks e)
  | .ok db =>
    match ← checkOrInitEncMarker crypto ⟨db, master⟩ with
    | .error e => do
      close db
      return .error e
    | .ok () => return .ok ⟨db, master⟩

def putVal (store : Store) (key : RowKey) (plaintext : Bytes) (sync : Bool) :
    M (Except ValErr Unit) := do
  match ← sealValue crypto store.master (utf8 (rowKey key)) plaintext with
  | .error e => return .error (.crypt e)
  | .ok sealed =>
    match ← put store.db (utf8 (rowKey key)) sealed sync with
    | .error e => return .error (.db e)
    | .ok () => return .ok ()

/-- The entries of a write batch, each sealed for its key. -/
def sealGroup (store : Store) : List (RowKey × Bytes) → M (Except ValErr (List (Bytes × Bytes)))
  | [] => return .ok []
  | (key, plaintext) :: group => do
    match ← sealValue crypto store.master (utf8 (rowKey key)) plaintext with
    | .error e => return .error (.crypt e)
    | .ok sealed =>
      match ← sealGroup store group with
      | .error e => return .error e
      | .ok rows => return .ok ((utf8 (rowKey key), sealed) :: rows)

def putGroup (store : Store) (group : List (RowKey × Bytes)) : M (Except ValErr Unit) := do
  match ← sealGroup crypto store group with
  | .error e => return .error e
  | .ok rows =>
    match ← writeBatch store.db rows with
    | .error e => return .error (.db e)
    | .ok () => return .ok ()

def rawPutSealed (store : Store) (key plaintext : Bytes) : M (Except StoreError Unit) := do
  match ← sealValue crypto store.master key plaintext with
  | .error e => return .error (.crypt e)
  | .ok sealed =>
    match ← put store.db key sealed false with
    | .error e => return .error (.rocks e)
    | .ok () => return .ok ()

def rawGetUnsealed (store : Store) (key : Bytes) : M (Except StoreError (Option Bytes)) := do
  match ← get store.db key with
  | .error e => return .error (.rocks e)
  | .ok none => return .ok none
  | .ok (some raw) =>
    match openValue crypto store.master key raw with
    | .error e => return .error (.crypt e)
    | .ok pt => return .ok (some pt)

def flushStore (store : Store) : M (Except StoreError Unit) := do
  match ← flush store.db with
  | .error e => return .error (.rocks e)
  | .ok () => return .ok ()

/-- A write through an open store. -/
inductive Write where
  | put (key : RowKey) (plaintext : Bytes) (sync : Bool)
  | group (rows : List (RowKey × Bytes))

/-- Each write goes through or fails by itself. -/
def applyWrites (store : Store) : List Write → M Unit
  | [] => return ()
  | .put key plaintext sync :: writes => do
    let _ ← putVal crypto store key plaintext sync
    applyWrites store writes
  | .group rows :: writes => do
    let _ ← putGroup crypto store rows
    applyWrites store writes

/-- A process that opens the store, writes to it and closes it. -/
def serve (path : String) (master : H256) (writes : List Write) : M (Except StoreError Unit) := do
  match ← openStore crypto path master with
  | .error e => return .error e
  | .ok store => do
    applyWrites crypto store writes
    close store.db
    return .ok ()

end Store

section Laws

/-- What was encrypted is decrypted again. -/
def RoundTrip (crypto : StoreCrypto) : Prop :=
  ∀ key nonce msg aad ct, crypto.encrypt key nonce msg aad = some ct →
    crypto.decrypt key nonce ct aad = some msg

/-- What was encrypted is decrypted again, and under no other key; the derivation tells master
keys apart. -/
structure Aead (crypto : StoreCrypto) : Prop where
  opens : ∀ key nonce msg aad ct, crypto.encrypt key nonce msg aad = some ct →
    crypto.decrypt key nonce ct aad = some msg
  other_key : ∀ key key' nonce msg aad ct, crypto.encrypt key nonce msg aad = some ct →
    key' ≠ key → crypto.decrypt key' nonce ct aad = none
  derives : ∀ domain master master',
    crypto.deriveKey domain master = crypto.deriveKey domain master' → master = master'

variable {crypto : StoreCrypto} {master : H256} {nonce : BitVec 96} {key plaintext raw : Bytes}

theorem sealWith_eq_ok :
    sealWith crypto master nonce key plaintext = .ok raw ↔
      ∃ ct, crypto.encrypt (cipherFor crypto master (namespaceOf key)) nonce plaintext key =
        some ct ∧ raw = wordBytes 12 nonce ++ ct := by
  unfold sealWith
  split
  · rename_i h
    simp [h]
  · rename_i ct h
    simp [h, eq_comm]

theorem openValue_append (nonce : BitVec 96) (ct : Bytes) :
    openValue crypto master key (wordBytes 12 nonce ++ ct) =
      match crypto.decrypt (cipherFor crypto master (namespaceOf key)) nonce ct key with
      | none => .error .crypto
      | some plaintext => .ok plaintext := by
  have htake : (wordBytes 12 nonce ++ ct).take 12 = wordBytes 12 nonce := List.take_left' (by simp)
  have hdrop : (wordBytes 12 nonce ++ ct).drop 12 = ct := List.drop_left' (by simp)
  rw [openValue, if_neg (by simp), htake, hdrop, ofWordBytes_wordBytes (by norm_num)]

/-- A sealed value opens to what was sealed. -/
theorem openValue_of_seal (htrip : RoundTrip crypto)
    (h : sealWith crypto master nonce key plaintext = .ok raw) :
    openValue crypto master key raw = .ok plaintext := by
  obtain ⟨ct, hct, rfl⟩ := sealWith_eq_ok.1 h
  rw [openValue_append, htrip _ _ _ _ _ hct]

/-- A sealed value opens under no other master key. -/
theorem openValue_other_key (haead : Aead crypto) {master' : H256} (hne : master' ≠ master)
    (h : sealWith crypto master nonce key plaintext = .ok raw) :
    openValue crypto master' key raw = .error .crypto := by
  obtain ⟨ct, hct, rfl⟩ := sealWith_eq_ok.1 h
  have hkey : cipherFor crypto master' (namespaceOf key) ≠
      cipherFor crypto master (namespaceOf key) := fun heq => hne (haead.derives _ _ _ heq)
  rw [openValue_append, haead.other_key _ _ _ _ _ _ hct hkey]

end Laws

section Marker

theorem utf8_append (s t : String) : utf8 (s ++ t) = utf8 s ++ utf8 t := by
  simp [utf8]

/-- No row of the store is at the key of the marker. -/
theorem rowKey_ne_marker (key : RowKey) : utf8 (rowKey key) ≠ encMarkerKey := by
  have hbegin : ∀ {p s : String}, 3 ≤ (utf8 p).length → utf8 (p ++ s) = encMarkerKey →
      (utf8 p).take 3 = encMarkerKey.take 3 := by
    intro p s hlen heq
    rw [← heq, utf8_append, List.take_append_of_le_length hlen]
  intro heq
  cases key with
  | record hash => exact absurd (hbegin (by decide) heq) (by decide)
  | bal hash => exact absurd (hbegin (by decide) heq) (by decide)
  | batch id => exact absurd (hbegin (by decide) heq) (by decide)
  | batchset id => exact absurd (hbegin (by decide) heq) (by decide)
  | refundowed id => exact absurd (hbegin (by decide) heq) (by decide)
  | mbudget hash model =>
    rw [rowKey, mbudgetKey, String.append_assoc, String.append_assoc] at heq
    exact absurd (hbegin (by decide) heq) (by decide)
  | quota owner day =>
    cases owner with
    | key hash =>
      rw [rowKey, quotaKey, String.append_assoc, String.append_assoc] at heq
      exact absurd (hbegin (by decide) heq) (by decide)
    | memberPool => exact absurd (hbegin (by decide) heq) (by decide)
  | memberMap subhash => exact absurd (hbegin (by decide) heq) (by decide)

end Marker
end Gateway.Vault
