import CitrateGateway.Gateway.Vault
import CitrateGateway.Shared.Text

/-!
# Where the master key comes from

The environment, then the key file, then a fresh key that is written to the file. A source that is
there but malformed fails the boot; nothing falls through to the next one.
-/

namespace Gateway.Keyvault
set_option autoImplicit false
open Words Files

inductive KeySource where
  | env
  | file (path : String)
  | generated (path : String)
  deriving DecidableEq

inductive KeyvaultError where
  | badEnvKey
  | badFileKey (path : String)
  | tooPermissive (path : String) (mode : Nat)
  | io (path msg : String)
  | rng
  | notFound (path : String)
  deriving DecidableEq

/-- What there is at a path: the mode and the content, or why they cannot be read. -/
structure KeyFile where
  mode : Except String Nat
  content : Except String String

/-- What the host has for the chain: `GATEWAY_STORE_KEY`, `GATEWAY_STORE_KEY_FILE`, the files, what
is drawn, and how writing a key file ends. -/
structure Host where
  storeKey : Option String
  storeKeyFile : Option String
  file : String → Option KeyFile
  random : Option H256
  writeKeyFile : String → H256 → Except String Unit

def defaultKeyFile (keystorePath : String) : String := keystorePath ++ ".master.key"

def resolveKeyFile (host : Host) (keystorePath : String) (explicit : Option String) : String :=
  match explicit with
  | some p => p
  | none =>
    match host.storeKeyFile with
    | some p => if trim p = "" then defaultKeyFile keystorePath else p
    | none => defaultKeyFile keystorePath

def parseHexKey (s : String) : Option H256 := (hexDecode 32 (trim s).toList).map (ofWordBytes 256)

def checkKeyFilePerms (path : String) (f : KeyFile) : Except KeyvaultError Unit :=
  match f.mode with
  | .error e => .error (.io path e)
  | .ok mode =>
    if mode &&& 0o777 &&& 0o077 ≠ 0 then .error (.tooPermissive path (mode &&& 0o777)) else .ok ()

def loadFromFile (path : String) (f : KeyFile) : Except KeyvaultError (H256 × KeySource) :=
  match checkKeyFilePerms path f with
  | .error e => .error e
  | .ok () =>
    match f.content with
    | .error e => .error (.io path e)
    | .ok s =>
      match parseHexKey s with
      | none => .error (.badFileKey path)
      | some key => .ok (key, .file path)

def generate (host : Host) (path : String) : Except KeyvaultError (H256 × KeySource) :=
  match host.random with
  | none => .error .rng
  | some key =>
    match host.writeKeyFile path key with
    | .error e => .error (.io path e)
    | .ok () => .ok (key, .generated path)

/-- A value of the environment that counts as set. -/
def setValue (value : Option String) : Option String := value.filter fun v => trim v ≠ ""

def loadStoreKey (host : Host) (keyFile : String) (allowGenerate : Bool) :
    Except KeyvaultError (H256 × KeySource) :=
  match setValue host.storeKey with
  | some v =>
    match parseHexKey v with
    | none => .error .badEnvKey
    | some key => .ok (key, .env)
  | none =>
    match host.file keyFile with
    | some f => loadFromFile keyFile f
    | none => if allowGenerate then generate host keyFile else .error (.notFound keyFile)

inductive OpenStoreError where
  | key (e : KeyvaultError)
  | store (e : StoreError)
  deriving DecidableEq

/-- `open_store`: source the master key, then open the store under it. -/
def openStore (crypto : Vault.StoreCrypto) (keystorePath : String) (host : Host) :
    M (Except OpenStoreError (Vault.Store × KeySource)) := do
  match loadStoreKey host (resolveKeyFile host keystorePath none) true with
  | .error e => return .error (.key e)
  | .ok (key, source) =>
    match ← Vault.openStore crypto keystorePath key with
    | .error e => return .error (.store e)
    | .ok store => return .ok (store, source)

section Chain
variable {host : Host} {keyFile path : String} {allowGenerate : Bool} {key : H256}

theorem source_of_file {f : KeyFile} {source : KeySource}
    (h : loadFromFile path f = .ok (key, source)) : source = .file path := by
  unfold loadFromFile at h
  split at h
  · cases h
  · split at h
    · cases h
    · split at h
      · cases h
      · cases h
        rfl

/-- A fresh key is made only where it is allowed, nothing is set and there is no key file. -/
theorem generated_iff :
    loadStoreKey host keyFile allowGenerate = .ok (key, .generated path) ↔
      allowGenerate = true ∧ setValue host.storeKey = none ∧ host.file keyFile = none ∧
        generate host keyFile = .ok (key, .generated path) := by
  unfold loadStoreKey
  constructor
  · intro h
    cases hvalue : setValue host.storeKey with
    | some v =>
      rw [hvalue] at h
      dsimp only at h
      split at h
      · cases h
      · cases h
    | none =>
      rw [hvalue] at h
      cases hfile : host.file keyFile with
      | some f =>
        rw [hfile] at h
        cases source_of_file h
      | none =>
        rw [hfile] at h
        dsimp only at h
        split at h
        · rename_i hallow
          exact ⟨hallow, rfl, rfl, h⟩
        · cases h
  · rintro ⟨hallow, hvalue, hfile, hgenerate⟩
    rw [hvalue, hfile]
    dsimp only
    rw [if_pos hallow, hgenerate]

/-- A host on its first boot. -/
def firstBoot (key : H256) : Host where
  storeKey := none
  storeKeyFile := none
  file := fun _ => none
  random := some key
  writeKeyFile := fun _ _ => .ok ()

theorem load_firstBoot (key : H256) (keyFile : String) :
    loadStoreKey (firstBoot key) keyFile true = .ok (key, .generated keyFile) :=
  generated_iff.2 ⟨rfl, rfl, rfl, rfl⟩

end Chain
end Gateway.Keyvault
