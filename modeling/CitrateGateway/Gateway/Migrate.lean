import CitrateGateway.Gateway.Vault

/-!
# The migration of a plaintext store

The rows of the source are checked against the known schema, copied sealed into a staging store,
read back one by one, and then the two directories are swapped by two renames. The source stays
open, and with it locked, until just before the swap.
-/

namespace Gateway.Vault
set_option autoImplicit false
open Words Effects Durable Files

section Records

/-- A reader takes what it decodes from the front. -/
abbrev Reader := StateT Bytes Option

def readBytes (n : Nat) : Reader Bytes := fun bs =>
  if n ≤ bs.length then some (bs.take n, bs.drop n) else none

/-- A little-endian number of `n` bytes. -/
def readLe (n : Nat) : Reader Nat := do return ofBeBytes (← readBytes n).reverse

def readString : Reader String := do
  let bytes ← readBytes (← readLe 8)
  match String.fromUTF8? ⟨bytes.toArray⟩ with
  | some s => return s
  | none => failure

def readBool : Reader Bool := do
  match ← readLe 1 with
  | 0 => return false
  | 1 => return true
  | _ => failure

def readKeyRecord : Reader KeyRecord := do
  let label ← readString
  let createdAt ← readLe 8
  let revoked ← readBool
  let quotaRps ← readLe 4
  let dailyQuota ← readLe 8
  return ⟨label, .ofNat createdAt, revoked, .ofNat quotaRps, .ofNat dailyQuota⟩

def readBalanceRecord : Reader BalanceRecord := do
  let label ← readString
  let createdAt ← readLe 8
  let revoked ← readBool
  let backing ← readLe 1
  let depositAddress ← readBytes 20
  let balance ← readBytes 32
  return ⟨label, .ofNat createdAt, revoked, .ofNat backing, ofWordBytes 160 depositAddress,
    ofWordBytes 256 balance⟩

/-- `bincode::deserialize`; bytes after the value are allowed. -/
def deserialize {α : Type} (r : Reader α) (bytes : Bytes) : Option α := (r bytes).map (·.1)

end Records

inductive SourceState where
  | alreadyEncrypted
  | plaintext
  deriving DecidableEq

structure MigrateReport where
  state : SourceState
  entries : Nat
  perNamespace : List (String × Nat)
  dryRun : Bool
  backup : Option String
  deriving DecidableEq

inductive MigrateError where
  | missing (path : String)
  | db (msg : String)
  | wrongKey
  | keyRequired
  | unrecognized (key : String)
  | io (path msg : String)
  | store (e : StoreError)
  | verify (key : String)
  deriving DecidableEq

section Scan

/-- The namespace of a row of the known plaintext schema. -/
def checkKnownRow (key value : Bytes) : Except MigrateError String :=
  let printable := fromUtf8Lossy key
  match key.findIdx? (· == 58) with
  | none => .error (.unrecognized printable)
  | some i =>
    let ns := key.take i
    if ns = utf8 "record" then
      match deserialize readKeyRecord value with
      | none => .error (.unrecognized printable)
      | some _ => .ok "record"
    else if ns = utf8 "bal" then
      match deserialize readBalanceRecord value with
      | none => .error (.unrecognized printable)
      | some _ => .ok "bal"
    else if ns = utf8 "quota" ∧ value.length = 8 then .ok "quota"
    else if ns = utf8 "mbudget" ∧ value.length = 32 then .ok "mbudget"
    else if ns = utf8 "batchset" ∧ value.length = 1 then .ok "batchset"
    else if ns = utf8 "batch" then .ok "batch"
    else .error (.unrecognized printable)

/-- One more row of a namespace; a new namespace goes to the end. -/
def bump (ns : String) : List (String × Nat) → List (String × Nat)
  | [] => [(ns, 1)]
  | (n, c) :: counts => if n = ns then (n, c + 1) :: counts else (n, c) :: bump ns counts

/-- Classify the rows that the iterator yields; the first surprise aborts. -/
def scanRows (rows : List (Bytes × Bytes)) (counts : List (String × Nat)) :
    List (Except String (Bytes × Bytes)) →
      Except MigrateError (List (Bytes × Bytes) × List (String × Nat))
  | [] => .ok (rows, counts)
  | .error e :: _ => .error (.db e)
  | .ok (k, v) :: items =>
    match checkKnownRow k v with
    | .error e => .error e
    | .ok ns => scanRows (rows ++ [(k, v)]) (bump ns counts) items

/-- A row at the key of the marker is of no known namespace. -/
theorem checkKnownRow_marker (value : Bytes) :
    checkKnownRow encMarkerKey value = .error (.unrecognized (fromUtf8Lossy encMarkerKey)) := by
  have hcolon : encMarkerKey.findIdx? (· == 58) = some 4 := by decide
  have hrecord : encMarkerKey.take 4 ≠ utf8 "record" := by decide
  have hbal : encMarkerKey.take 4 ≠ utf8 "bal" := by decide
  have hquota : encMarkerKey.take 4 ≠ utf8 "quota" := by decide
  have hmbudget : encMarkerKey.take 4 ≠ utf8 "mbudget" := by decide
  have hbatchset : encMarkerKey.take 4 ≠ utf8 "batchset" := by decide
  have hbatch : encMarkerKey.take 4 ≠ utf8 "batch" := by decide
  simp only [checkKnownRow, hcolon, hrecord, hbal, hquota, hmbudget, hbatchset, hbatch, if_false,
    false_and]

/-- The row is of the known plaintext schema. -/
def Known (row : Bytes × Bytes) : Prop := ∃ ns, checkKnownRow row.1 row.2 = .ok ns

def total (counts : List (String × Nat)) : Nat := (counts.map Prod.snd).sum

theorem total_bump (ns : String) (counts : List (String × Nat)) :
    total (bump ns counts) = total counts + 1 := by
  induction counts with
  | nil => rfl
  | cons entry counts ih =>
    obtain ⟨n, c⟩ := entry
    unfold bump
    split
    · simp only [total, List.map_cons, List.sum_cons]
      omega
    · simp only [total, List.map_cons, List.sum_cons] at ih ⊢
      omega

/-- A scan that succeeds has read every row, and all of them are known. -/
theorem scanRows_ok {acc rows : List (Bytes × Bytes)} {counts counts' : List (String × Nat)}
    {items : List (Except String (Bytes × Bytes))}
    (h : scanRows acc counts items = .ok (rows, counts')) :
    ∃ new, items = new.map .ok ∧ rows = acc ++ new ∧ (∀ row ∈ new, Known row) ∧
      total counts' = total counts + new.length := by
  induction items generalizing acc counts with
  | nil =>
    cases h
    exact ⟨[], rfl, (List.append_nil _).symm, nofun, rfl⟩
  | cons item items ih =>
    cases item with
    | error e => cases h
    | ok row =>
      obtain ⟨k, v⟩ := row
      simp only [scanRows] at h
      split at h
      · cases h
      · rename_i ns hns
        obtain ⟨new, rfl, rfl, hknown, htotal⟩ := ih h
        refine ⟨(k, v) :: new, rfl, by simp, ?_, ?_⟩
        · intro row hrow
          rcases List.mem_cons.1 hrow with rfl | hrow
          · exact ⟨ns, hns⟩
          · exact hknown row hrow
        · rw [htotal, total_bump, List.length_cons]
          omega

/-- A scan meets an error of the database or a row that is not known, or it succeeds. -/
theorem scanRows_known (acc : List (Bytes × Bytes)) (counts : List (String × Nat))
    {new : List (Bytes × Bytes)} (hknown : ∀ row ∈ new, Known row) :
    ∃ counts', scanRows acc counts (new.map .ok) = .ok (acc ++ new, counts') := by
  induction new generalizing acc counts with
  | nil => exact ⟨counts, by rw [List.append_nil]; rfl⟩
  | cons row new ih =>
    obtain ⟨k, v⟩ := row
    obtain ⟨ns, hns⟩ := hknown (k, v) List.mem_cons_self
    obtain ⟨counts', hrest⟩ := ih (acc ++ [(k, v)]) (bump ns counts)
      fun r hr => hknown r (List.mem_cons_of_mem _ hr)
    refine ⟨counts', ?_⟩
    rw [List.map_cons, scanRows]
    simp only [hns, hrest]
    simp

end Scan

section Copy
variable (crypto : StoreCrypto)

/-- A leftover of a run that crashed is removed. -/
def clearStaging (staging : String) : M (Except MigrateError Unit) := do
  if ← pathExists staging then
    match ← removeDirAll staging with
    | .error e => return .error (.io staging e)
    | .ok () => return .ok ()
  else return .ok ()

def copyRows (enc : Store) : List (Bytes × Bytes) → M (Except MigrateError Unit)
  | [] => return .ok ()
  | (k, v) :: rows => do
    match ← rawPutSealed crypto enc k v with
    | .error e => return .error (.store e)
    | .ok () => copyRows enc rows

def verifyRows (enc : Store) : List (Bytes × Bytes) → M (Except MigrateError Unit)
  | [] => return .ok ()
  | (k, v) :: rows => do
    match ← rawGetUnsealed crypto enc k with
    | .error e => return .error (.store e)
    | .ok got =>
      if got ≠ some v then return .error (.verify (fromUtf8Lossy k)) else verifyRows enc rows

def fillStaging (enc : Store) (rows : List (Bytes × Bytes)) : M (Except MigrateError Unit) := do
  match ← copyRows crypto enc rows with
  | .error e => return .error e
  | .ok () =>
    match ← verifyRows crypto enc rows with
    | .error e => return .error e
    | .ok () =>
      match ← flushStore enc with
      | .error e => return .error (.store e)
      | .ok () => return .ok ()

/-- Copy into a fresh staging store, which is closed on every way out. -/
def buildStaging (staging : String) (master : H256) (rows : List (Bytes × Bytes)) :
    M (Except MigrateError Unit) := do
  match ← clearStaging staging with
  | .error e => return .error e
  | .ok () =>
    match ← openStore crypto staging master with
    | .error e => return .error (.store e)
    | .ok enc => do
      let r ← fillStaging crypto enc rows
      close enc.db
      return r

/-- The two renames, and where the first put the source. -/
def swap (path staging : String) : M (Except MigrateError String) := do
  let backup := path ++ (".pre-encrypt-" ++ (← timestamp))
  match ← rename path backup with
  | .error e => return .error (.io backup e)
  | .ok () =>
    match ← rename staging path with
    | .error e => return .error (.io staging e)
    | .ok () => return .ok backup

end Copy

section Migrate
variable (crypto : StoreCrypto)

/-- Whether the marker opens to its plaintext. -/
def markerOpens (master : H256) (raw : Bytes) : Bool :=
  match openValue crypto master encMarkerKey raw with
  | .ok pt => pt == encMarkerPlaintext
  | .error _ => false

/-- What a marked source answers; without a key it is not checked which key it is under. -/
def alreadyEncrypted (master : Option H256) (dryRun : Bool) (raw : Bytes) :
    Except MigrateError MigrateReport :=
  if master.all fun master => markerOpens crypto master raw then
    .ok ⟨.alreadyEncrypted, 0, [], dryRun, none⟩
  else .error .wrongKey

/-- The real part of a run: build the staging store, release the source and swap. -/
def migrateRows (path : String) (master : H256) (src : Nat) (rows : List (Bytes × Bytes))
    (counts : List (String × Nat)) : M (Except MigrateError MigrateReport) := do
  let staging := path ++ ".migrating"
  match ← buildStaging crypto staging master rows with
  | .error e => do
    close src
    return .error e
  | .ok () => do
    close src
    match ← swap path staging with
    | .error e => return .error e
    | .ok backup => return .ok ⟨.plaintext, rows.length, counts, false, some backup⟩

/-- What a run does with its open source. -/
def migrateOpened (path : String) (master : Option H256) (dryRun : Bool) (src : Nat) :
    M (Except MigrateError MigrateReport) := do
  match ← get src encMarkerKey with
  | .error e => do
    close src
    return .error (.db e)
  | .ok (some raw) => do
    close src
    return alreadyEncrypted crypto master dryRun raw
  | .ok none =>
    match scanRows [] [] (← iterator src) with
    | .error e => do
      close src
      return .error e
    | .ok (rows, counts) =>
      match dryRun, master with
      | false, some master => migrateRows crypto path master src rows counts
      | false, none => do
        -- refused before the source was opened
        close src
        return .error .keyRequired
      | true, _ => do
        close src
        return .ok ⟨.plaintext, rows.length, counts, true, none⟩

def migrateEncrypt (path : String) (master : Option H256) (dryRun : Bool) :
    M (Except MigrateError MigrateReport) := do
  if ← pathExists path then
    if master.isNone && !dryRun then return .error .keyRequired
    else
      match ← openDb path false with
      | .error e => return .error (.db e)
      | .ok src => migrateOpened crypto path master dryRun src
  else return .error (.missing path)

end Migrate
end Gateway.Vault
