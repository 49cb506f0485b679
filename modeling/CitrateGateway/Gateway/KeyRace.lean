import CitrateGateway.Gateway.Keyvault
import CitrateGateway.Shared.System

/-!
# First boots at the same time

Each call that sources the master key looks for the key file, and without one makes a key and
creates the file for it. The look, the creation, the write and the sync are steps of their own,
and any number of calls take theirs in any order. What a call gives as the key is what is in the
file, but a call that comes second to the creation fails, and so does one that reads the file
before its digits are all there.
-/

namespace Gateway.KeyRace
set_option autoImplicit false
open Words Effects Keyvault

section Calls

/-- What a call does with the key file of its path. -/
inductive Op where
  | pathExists
  | metadata
  | readToString
  | getrandom
  | createDirAll
  | createNew
  | write (buf : List Char)
  | syncAll

abbrev Op.Ans : Op → Type
  | .pathExists => Bool
  | .metadata => Except String Nat
  | .readToString => Except String String
  | .getrandom => Option H256
  | .createDirAll | .createNew | .syncAll => Except String Unit
  | .write _ => Except String Nat

abbrev FileSig : Sig := ⟨Op, Op.Ans⟩

abbrev Event := FileSig.Event

abbrev M := Prog FileSig

abbrev Answer := Except KeyvaultError (H256 × KeySource)

def pathExists : M Bool := .perform (E := FileSig) .pathExists

def metadata : M (Except String Nat) := .perform (E := FileSig) .metadata

def readToString : M (Except String String) := .perform (E := FileSig) .readToString

def getrandom : M (Option H256) := .perform (E := FileSig) .getrandom

def createDirAll : M (Except String Unit) := .perform (E := FileSig) .createDirAll

def createNew : M (Except String Unit) := .perform (E := FileSig) .createNew

def write (buf : List Char) : M (Except String Nat) := .perform (E := FileSig) (.write buf)

def syncAll : M (Except String Unit) := .perform (E := FileSig) .syncAll

/-- `write_all` of what comes after the first `n` characters. A write may take a part of what it
is given; one that takes nothing is an error. The text is ASCII, a byte for each character. -/
def writeFrom : Nat → List Char → M (Except String Unit)
  | _, [] => return .ok ()
  | n + 1, _ :: cs => writeFrom n cs
  | 0, c :: cs => do
    match ← write (c :: cs) with
    | .error e => return .error e
    | .ok 0 => return .error "failed to write whole buffer"
    | .ok (n + 1) => writeFrom n cs

def writeAll (buf : List Char) : M (Except String Unit) := writeFrom 0 buf

/-- `hex::encode` of a key. -/
def digits (key : H256) : List Char := (hexEncode (wordBytes 32 key)).toList

variable (path : String)

def checkKeyFilePerms : M (Except KeyvaultError Unit) := do
  match ← metadata with
  | .error e => return .error (.io path e)
  | .ok mode =>
    return if mode &&& 0o777 &&& 0o077 ≠ 0 then .error (.tooPermissive path (mode &&& 0o777))
      else .ok ()

def readKey : M Answer := do
  match ← readToString with
  | .error e => return .error (.io path e)
  | .ok s =>
    match parseHexKey s with
    | none => return .error (.badFileKey path)
    | some key => return .ok (key, .file path)

def syncFile : M (Except KeyvaultError Unit) := do
  match ← syncAll with
  | .error e => return .error (.io path e)
  | .ok () => return .ok ()

/-- The newline is a write of its own, after the digits. -/
def endLine (written : Except String Unit) : M (Except KeyvaultError Unit) := do
  match written with
  | .error e => return .error (.io path e)
  | .ok () =>
    match ← writeAll ['\n'] with
    | .error e => return .error (.io path e)
    | .ok () => syncFile path

def writeLine (buf : List Char) : M (Except KeyvaultError Unit) := do
  let written ← writeAll buf
  endLine path written

def createFile (key : H256) : M (Except KeyvaultError Unit) := do
  match ← createNew with
  | .error e => return .error (.io path e)
  | .ok () => writeLine path (digits key)

def writeKeyFile (key : H256) : M (Except KeyvaultError Unit) := do
  match ← createDirAll with
  | .error e => return .error (.io path e)
  | .ok () => createFile path key

/-- What is returned once the key was written, or was not. -/
def generated (key : H256) (written : Except KeyvaultError Unit) : M Answer :=
  match written with
  | .error e => return .error e
  | .ok () => return .ok (key, .generated path)

def readFile : M Answer := do
  match ← checkKeyFilePerms path with
  | .error e => return .error e
  | .ok () => readKey path

def generateKey : M Answer := do
  match ← getrandom with
  | none => return .error .rng
  | some key =>
    let written ← writeKeyFile path key
    generated path key written

def loadStoreKeyWith (envVal : Option String) (allowGenerate : Bool) : M Answer :=
  match setValue envVal with
  | some v =>
    match parseHexKey v with
    | none => return .error .badEnvKey
    | some key => return .ok (key, .env)
  | none => do
    if ← pathExists then readFile path
    else if allowGenerate then generateKey path
    else return .error (.notFound path)

end Calls

section Machine

/-- What the environment decides of an operation: whether it fails, how much a write takes, and
what is drawn. -/
structure Chance where
  fault : Bool := false
  count : Nat := 0
  random : H256 := 0
  message : String := ""

/-- The content of the file, if it is there. It is created `0600`, and never removed. -/
abbrev KeyFile := Option (List Char)

/-- A file that cannot be looked at counts as not there. -/
def handle (file : KeyFile) (_ : Nat) : (o : Op) → Chance → Option (o.Ans × KeyFile)
  | .pathExists, c => some (file.isSome && !c.fault, file)
  | .metadata, c => some (if c.fault || file.isNone then .error c.message else .ok 0o600, file)
  | .readToString, c =>
    match file with
    | none => some (.error c.message, file)
    | some content =>
      some (if c.fault then .error c.message else .ok (String.ofList content), file)
  | .getrandom, c => some (if c.fault then none else some c.random, file)
  | .createDirAll, c => some (if c.fault then .error c.message else .ok (), file)
  | .createNew, c =>
    if c.fault || file.isSome then some (.error c.message, file) else some (.ok (), some [])
  | .write buf, c =>
    if c.fault then some (.error c.message, file)
    else some (.ok (min c.count buf.length), file.map (· ++ buf.take c.count))
  | .syncAll, c => some (if c.fault then .error c.message else .ok (), file)

structure KeyCall where
  envVal : Option String
  allowGenerate : Bool

/-- A key may be generated and the environment has none. -/
def KeyCall.Fresh (j : KeyCall) : Prop := setValue j.envVal = none ∧ j.allowGenerate = true

/-- Any number of calls for one path. -/
abbrev loads (path : String) : System FileSig where
  Shared := KeyFile
  Job := KeyCall
  Res := Answer
  Input := Chance
  World := Empty
  prog := fun j => loadStoreKeyWith path j.envVal j.allowGenerate
  onStart := fun file _ => some file
  handle := handle
  leave := fun file _ => file
  spawn := fun _ => none
  world := fun _ w => w.elim
  halts := fun w => w.elim

/-- An operation that goes well: nothing fails, nothing is created twice, and what is read has all
its digits. -/
def Orderly (file : KeyFile) : Op → Chance → Prop
  | .pathExists, _ => True
  | .metadata, c | .getrandom, c | .createDirAll, c | .syncAll, c => c.fault = false
  | .readToString, c => c.fault = false ∧ ∃ content, file = some content ∧ 64 ≤ content.length
  | .createNew, c => c.fault = false ∧ file = none
  | .write _, c => c.fault = false ∧ 0 < c.count

end Machine

section Text
variable {key key' : H256} {content : List Char}

/-- What the file holds when the key was written. -/
def keyLine (key : H256) : List Char := digits key ++ ['\n']

theorem digits_length (key : H256) : (digits key).length = 64 := by
  simp [digits, hexEncode, List.length_flatMap]

theorem keyLine_length (key : H256) : (keyLine key).length = 65 := by
  rw [keyLine, List.length_append, digits_length]
  rfl

theorem hexDigit_plain (n : Nat) : isWhiteSpace (hexDigit n) = false := by
  by_cases hn : n < 16
  · interval_cases n <;> decide
  · have hlen : "0123456789abcdef".toList.length = 16 := by decide
    rw [hexDigit, List.getD, List.getElem?_eq_none (by omega)]
    decide

theorem digits_plain (key : H256) : ∀ c ∈ digits key, isWhiteSpace c = false := by
  intro c hc
  rw [digits, hexEncode, String.toList_ofList] at hc
  obtain ⟨b, -, hc⟩ := List.mem_flatMap.1 hc
  rcases List.mem_pair.1 hc with rfl | rfl
  · exact hexDigit_plain _
  · exact hexDigit_plain _

theorem trim_plain {cs : List Char} (h : ∀ c ∈ cs, isWhiteSpace c = false) :
    trim (String.ofList cs) = String.ofList cs :=
  trim_eq_self (by rwa [String.toList_ofList])

theorem trim_line {cs : List Char} (h : ∀ c ∈ cs, isWhiteSpace c = false) :
    trim (String.ofList (cs ++ ['\n'])) = String.ofList cs := by
  have hnewline : isWhiteSpace '\n' = true := by decide
  cases cs with
  | nil => decide
  | cons c cs =>
    have hrev : ∀ d ∈ (c :: cs).reverse, isWhiteSpace d = false := by
      intro d hd
      exact h d (List.mem_reverse.1 hd)
    rw [trim, String.toList_ofList, List.cons_append, List.dropWhile_cons, h c (by simp)]
    rw [if_neg (by simp), ← List.cons_append, List.reverse_append, List.reverse_singleton,
      List.singleton_append, List.dropWhile_cons, if_pos hnewline, dropWhile_eq_self hrev,
      List.reverse_reverse]

theorem hexDecode_digits (key : H256) : hexDecode 32 (digits key) = some (wordBytes 32 key) := by
  have h := hexDecode_hexEncode (wordBytes 32 key)
  rw [wordBytes_length] at h
  exact h

theorem prefix_keyLine (h : content <+: keyLine key) :
    content = digits key ∨ content = keyLine key ∨
      (content.length < 64 ∧ content <+: digits key) := by
  have hlen := h.length_le
  rw [keyLine_length] at hlen
  by_cases hshort : content.length ≤ 64
  · have hcut : content <+: digits key :=
      List.prefix_of_prefix_length_le h (List.prefix_append _ _) (by rw [digits_length]; exact hshort)
    by_cases hall : content.length = 64
    · exact .inl (hcut.eq_of_length (by rw [digits_length, hall]))
    · exact .inr (.inr ⟨by omega, hcut⟩)
  · exact .inr (.inl (h.eq_of_length (by rw [keyLine_length]; omega)))

/-- A file that is being written holds its key as soon as all digits are there, and none before. -/
theorem parse_of_cut (h : content <+: keyLine key) :
    parseHexKey (String.ofList content) = if 64 ≤ content.length then some key else none := by
  have hvalue : (hexDecode 32 (digits key)).map (ofWordBytes 256) = some key := by
    rw [hexDecode_digits, Option.map_some, ofWordBytes_wordBytes (by norm_num)]
  rw [parseHexKey]
  rcases prefix_keyLine h with heq | heq | ⟨hlen, hcut⟩
  · rw [heq, trim_plain (digits_plain key), String.toList_ofList, hvalue, digits_length,
      if_pos (Nat.le_refl 64)]
  · rw [heq, keyLine_length, keyLine, trim_line (digits_plain key), String.toList_ofList, hvalue,
      if_pos (by omega)]
  · have hplain : ∀ c ∈ content, isWhiteSpace c = false :=
      fun c hc => digits_plain key c (hcut.subset hc)
    rw [trim_plain hplain, String.toList_ofList, hexDecode, if_neg (by omega), if_neg (by omega)]
    rfl

end Text

section Stages

/-- How far a call has come. -/
inductive Stage where
  | look
  | perms
  | read
  | draw
  | mkdir (key : H256)
  | create (key : H256)
  /-- The digits that are still to be written. -/
  | write (key : H256) (rest : List Char)
  | newline (key : H256)
  | sync (key : H256)
  | done (r : Answer)

variable (path : String)

/-- What is left of the program of a call. -/
def Stage.prog : Stage → M Answer
  | .look => do if ← pathExists then readFile path else generateKey path
  | .perms => readFile path
  | .read => readKey path
  | .draw => generateKey path
  | .mkdir key => writeKeyFile path key >>= generated path key
  | .create key => createFile path key >>= generated path key
  | .write key rest => writeLine path rest >>= generated path key
  | .newline key => endLine path (.ok ()) >>= generated path key
  | .sync key => syncFile path >>= generated path key
  | .done r => .ret r

/-- Where an operation and its answer take a call. -/
inductive Moves : Stage → (o : Op) → o.Ans → Stage → Prop
  | found : Moves .look .pathExists true .perms
  | absent : Moves .look .pathExists false .draw
  | unknown (e : String) : Moves .perms .metadata (.error e) (.done (.error (.io path e)))
  | loose (mode : Nat) (h : mode &&& 0o777 &&& 0o077 ≠ 0) : Moves .perms .metadata (.ok mode)
    (.done (.error (.tooPermissive path (mode &&& 0o777))))
  | tight (mode : Nat) (h : mode &&& 0o777 &&& 0o077 = 0) : Moves .perms .metadata (.ok mode) .read
  | unread (e : String) : Moves .read .readToString (.error e) (.done (.error (.io path e)))
  | malformed (s : String) (h : parseHexKey s = none) :
    Moves .read .readToString (.ok s) (.done (.error (.badFileKey path)))
  | loaded (s : String) (key : H256) (h : parseHexKey s = some key) :
    Moves .read .readToString (.ok s) (.done (.ok (key, .file path)))
  | undrawn : Moves .draw .getrandom none (.done (.error .rng))
  | drawn (key : H256) : Moves .draw .getrandom (some key) (.mkdir key)
  | unmade (key : H256) (e : String) :
    Moves (.mkdir key) .createDirAll (.error e) (.done (.error (.io path e)))
  | made (key : H256) : Moves (.mkdir key) .createDirAll (.ok ()) (.create key)
  | refused (key : H256) (e : String) :
    Moves (.create key) .createNew (.error e) (.done (.error (.io path e)))
  | created (key : H256) : Moves (.create key) .createNew (.ok ()) (.write key (digits key))
  | unwritten (key : H256) (rest : List Char) (e : String) :
    Moves (.write key rest) (.write rest) (.error e) (.done (.error (.io path e)))
  | stuck (key : H256) (rest : List Char) : Moves (.write key rest) (.write rest) (.ok 0)
    (.done (.error (.io path "failed to write whole buffer")))
  | wrote (key : H256) (rest : List Char) (n : Nat) (h : rest.drop (n + 1) ≠ []) :
    Moves (.write key rest) (.write rest) (.ok (n + 1)) (.write key (rest.drop (n + 1)))
  | ended (key : H256) (rest : List Char) (n : Nat) (h : rest.drop (n + 1) = []) :
    Moves (.write key rest) (.write rest) (.ok (n + 1)) (.newline key)
  | unended (key : H256) (e : String) :
    Moves (.newline key) (.write ['\n']) (.error e) (.done (.error (.io path e)))
  | endless (key : H256) : Moves (.newline key) (.write ['\n']) (.ok 0)
    (.done (.error (.io path "failed to write whole buffer")))
  | lined (key : H256) (n : Nat) :
    Moves (.newline key) (.write ['\n']) (.ok (n + 1)) (.sync key)
  | unsynced (key : H256) (e : String) :
    Moves (.sync key) .syncAll (.error e) (.done (.error (.io path e)))
  | synced (key : H256) : Moves (.sync key) .syncAll (.ok ()) (.done (.ok (key, .generated path)))

variable {path} {σ : Stage} {o : Op} {k : o.Ans → M Answer}

theorem writeFrom_eq (n : Nat) (cs : List Char) : writeFrom n cs = writeAll (cs.drop n) := by
  induction cs generalizing n with
  | nil =>
    rw [List.drop_nil]
    cases n <;> rfl
  | cons c cs ih =>
    cases n with
    | zero => rfl
    | succ n =>
      rw [writeFrom, List.drop_succ_cons]
      exact ih n

theorem prog_loadStoreKeyWith {j : KeyCall} (h : j.Fresh) :
    loadStoreKeyWith path j.envVal j.allowGenerate = Stage.look.prog path := by
  rw [loadStoreKeyWith, h.1, h.2]
  rfl

theorem prog_eq_ret {r : Answer} (h : σ.prog path = .ret r) :
    σ = .done r ∨ ∃ key, σ = .write key [] := by
  cases σ with
  | done r' =>
    cases h
    exact .inl rfl
  | write key rest =>
    cases rest with
    | nil => exact .inr ⟨key, rfl⟩
    | cons c rest => cases h
  | _ => cases h

/-- What a call can do next, and where every answer takes it. -/
theorem moves_of_prog (hσ : ∀ key, σ ≠ .write key []) (h : σ.prog path = .op o k) (a : o.Ans) :
    ∃ σ', Moves path σ o a σ' ∧ k a = σ'.prog path := by
  cases σ with
  | look =>
    cases h
    cases a with
    | true => exact ⟨_, .found, rfl⟩
    | false => exact ⟨_, .absent, rfl⟩
  | perms =>
    cases h
    match a with
    | .error e => exact ⟨_, .unknown e, rfl⟩
    | .ok mode =>
      by_cases hmode : mode &&& 0o777 &&& 0o077 = 0
      · refine ⟨_, .tight mode hmode, ?_⟩
        simp only [Prog.bind, if_neg (not_not.2 hmode)]
        rfl
      · refine ⟨_, .loose mode hmode, ?_⟩
        simp only [Prog.bind, if_pos hmode]
        rfl
  | read =>
    cases h
    match a with
    | .error e => exact ⟨_, .unread e, rfl⟩
    | .ok s =>
      match hkey : parseHexKey s with
      | none =>
        refine ⟨_, .malformed s hkey, ?_⟩
        simp only [Prog.bind, hkey]
        rfl
      | some key =>
        refine ⟨_, .loaded s key hkey, ?_⟩
        simp only [Prog.bind, hkey]
        rfl
  | draw =>
    cases h
    cases a with
    | none => exact ⟨_, .undrawn, rfl⟩
    | some key => exact ⟨_, .drawn key, rfl⟩
  | mkdir key =>
    cases h
    match a with
    | .error e => exact ⟨_, .unmade key e, rfl⟩
    | .ok () => exact ⟨_, .made key, rfl⟩
  | create key =>
    cases h
    match a with
    | .error e => exact ⟨_, .refused key e, rfl⟩
    | .ok () =>
      refine ⟨_, .created key, ?_⟩
      simp only [Prog.bind]
      rfl
  | write key rest =>
    cases rest with
    | nil => exact absurd rfl (hσ key)
    | cons c cs =>
      cases h
      match a with
      | .error e => exact ⟨_, .unwritten key _ e, rfl⟩
      | .ok 0 => exact ⟨_, .stuck key _, rfl⟩
      | .ok (n + 1) =>
        by_cases hrest : cs.drop n = []
        · refine ⟨_, .ended key _ n hrest, ?_⟩
          simp only [Prog.bind, writeFrom_eq, hrest]
          rfl
        · refine ⟨_, .wrote key _ n hrest, ?_⟩
          simp only [Prog.bind, writeFrom_eq]
          rfl
  | newline key =>
    cases h
    match a with
    | .error e => exact ⟨_, .unended key e, rfl⟩
    | .ok 0 => exact ⟨_, .endless key, rfl⟩
    | .ok (n + 1) =>
      refine ⟨_, .lined key n, ?_⟩
      cases n <;> rfl
  | sync key =>
    cases h
    match a with
    | .error e => exact ⟨_, .unsynced key e, rfl⟩
    | .ok () => exact ⟨_, .synced key, rfl⟩
  | done r => cases h

end Stages

section Steps
variable {path : String} {σ σ' τ : Stage} {o : Op} {a : o.Ans} {c : Chance} {t : Nat}
variable {file file' : KeyFile}

/-- What a call that has come so far knows of the file. -/
def Facts (file : KeyFile) : Stage → Prop
  | .look | .draw | .mkdir _ | .create _ | .done (.error _) => True
  | .perms | .read => file.isSome = true
  | .write key rest => rest ≠ [] ∧ ∃ content, file = some content ∧ content ++ rest = digits key
  | .newline key => file = some (digits key)
  | .sync key => file = some (keyLine key)
  | .done (.ok (key, _)) => file = some (digits key) ∨ file = some (keyLine key)

/-- The file holds the beginning of the line of some key. -/
def Whole (file : KeyFile) : Prop := ∀ content, file = some content → ∃ key, content <+: keyLine key

/-- What a step does with the file. -/
inductive Grown (o : Op) (file : KeyFile) : KeyFile → Prop
  | same : Grown o file file
  | created (ho : o = .createNew) (h : file = none) : Grown o file (some [])
  | written (content buf : List Char) (n : Nat) (ho : o = .write buf) (h : file = some content) :
    Grown o file (some (content ++ buf.take n))

theorem grown_of_handle (h : handle file t o c = some (a, file')) : Grown o file file' := by
  cases o with
  | createNew =>
    simp only [handle] at h
    split at h
    · cases h
      exact .same
    · rename_i hfree
      cases h
      exact .created rfl (by simpa using (Bool.or_eq_false_iff.1 (Bool.eq_false_iff.2 hfree)).2)
  | write buf =>
    simp only [handle] at h
    split at h
    · cases h
      exact .same
    · cases h
      cases file with
      | none => exact .same
      | some content => exact .written content buf c.count rfl rfl
  | readToString =>
    simp only [handle] at h
    split at h
    · cases h
      exact .same
    · cases h
      exact .same
  | _ =>
    cases h
    exact .same

/-- What a call knows stays true while others do not write, or write before the digits are all
there or after the newline was left out. -/
theorem Facts.grown {content buf : List Char} {n : Nat} (h : Facts (some content) τ)
    (hτ : ∀ key rest, τ ≠ .write key rest) (hτ' : ∀ key, τ ≠ .newline key)
    (hlen : content.length < 64 ∨ content.length = 64 ∧ buf = ['\n']) :
    Facts (some (content ++ buf.take n)) τ := by
  cases τ with
  | write key rest => exact absurd rfl (hτ key rest)
  | newline key => exact absurd rfl (hτ' key)
  | sync key =>
    have hline := congrArg List.length (Option.some.inj h)
    rw [keyLine_length] at hline
    omega
  | done r =>
    match r with
    | .error e => trivial
    | .ok (key, source) =>
      rcases h with h | h
      · have hdigits := Option.some.inj h
        have hlength := congrArg List.length hdigits
        rw [digits_length] at hlength
        rcases hlen with hlen | ⟨-, rfl⟩
        · omega
        · rw [hdigits]
          cases n with
          | zero => exact .inl (by simp)
          | succ n => exact .inr (by simp [keyLine])
      · have hline := congrArg List.length (Option.some.inj h)
        rw [keyLine_length] at hline
        omega
  | perms => exact rfl
  | read => exact rfl
  | _ => trivial

theorem whole_digits {content rest : List Char} {key : H256} (h : content ++ rest = digits key) :
    content <+: keyLine key := by
  rw [keyLine, ← h, List.append_assoc]
  exact List.prefix_append _ _

/-- An operation that fails, or gives what it is for. -/
theorem fault_cases {α : Type} {b : Bool} {e : String} {x : α} {r : Except String α}
    (h : (if b then .error e else .ok x) = r) :
    (b = true ∧ r = .error e) ∨ (b = false ∧ r = .ok x) := by
  cases b with
  | true => exact .inl ⟨rfl, h.symm⟩
  | false => exact .inr ⟨rfl, h.symm⟩

/-- What a write that goes well leaves of its text. -/
theorem written_cases {rest : List Char} {n : Nat}
    (h : handle file t (.write rest) c = some (.ok n, file')) :
    c.fault = false ∧ n = min c.count rest.length ∧ file' = file.map (· ++ rest.take n) := by
  simp only [handle] at h
  split at h
  · cases h
  · rename_i hfault
    obtain ⟨hans, rfl⟩ := Prod.mk.inj (Option.some.inj h)
    have hn := (Except.ok.inj hans).symm
    refine ⟨Bool.eq_false_iff.2 hfault, hn, ?_⟩
    rw [hn, ← List.take_eq_take_min]

/-- A step leaves a call knowing what it should, and ends it with an error exactly when the
operation does not go well. -/
theorem step_spec (hmoves : Moves path σ o a σ') (hhandle : handle file t o c = some (a, file'))
    (hfacts : Facts file σ) (hwhole : Whole file) :
    Facts file' σ' ∧ Whole file' ∧ ((∃ e, σ' = .done (.error e)) ↔ ¬ Orderly file o c) := by
  have herror : ∀ e : KeyvaultError, ¬ Orderly file o c →
      ((∃ e', Stage.done (.error e) = .done (.error e')) ↔ ¬ Orderly file o c) :=
    fun e h => ⟨fun _ => h, fun _ => ⟨e, rfl⟩⟩
  have hgoes : ∀ τ : Stage, (∀ e, τ ≠ .done (.error e)) → Orderly file o c →
      ((∃ e', τ = .done (.error e')) ↔ ¬ Orderly file o c) :=
    fun τ hτ h => ⟨fun ⟨e, he⟩ => absurd he (hτ e), fun hnot => absurd h hnot⟩
  cases hmoves with
  | found =>
    obtain ⟨hans, rfl⟩ := Prod.mk.inj (Option.some.inj hhandle)
    rw [Bool.and_eq_true] at hans
    exact ⟨hans.1, hwhole, hgoes _ (by simp) trivial⟩
  | absent =>
    obtain ⟨-, rfl⟩ := Prod.mk.inj (Option.some.inj hhandle)
    exact ⟨trivial, hwhole, hgoes _ (by simp) trivial⟩
  | unknown e =>
    obtain ⟨hans, rfl⟩ := Prod.mk.inj (Option.some.inj hhandle)
    have hsome : file.isNone = false := by simpa [Facts] using hfacts
    rw [hsome, Bool.or_false] at hans
    rcases fault_cases hans with ⟨hfault, -⟩ | ⟨-, hans⟩
    · exact ⟨trivial, hwhole, herror _ (by simp [Orderly, hfault])⟩
    · cases hans
  | loose mode h =>
    obtain ⟨hans, rfl⟩ := Prod.mk.inj (Option.some.inj hhandle)
    rcases fault_cases hans with ⟨-, hans⟩ | ⟨-, hans⟩
    · cases hans
    · cases hans
      exact absurd (by decide) h
  | tight mode h =>
    obtain ⟨hans, rfl⟩ := Prod.mk.inj (Option.some.inj hhandle)
    rcases fault_cases hans with ⟨-, hans⟩ | ⟨hfault, -⟩
    · cases hans
    · exact ⟨hfacts, hwhole, hgoes _ (by simp) (Bool.or_eq_false_iff.1 hfault).1⟩
  | unread e =>
    obtain ⟨content, rfl⟩ := Option.isSome_iff_exists.1 hfacts
    obtain ⟨hans, rfl⟩ := Prod.mk.inj (Option.some.inj hhandle)
    rcases fault_cases hans with ⟨hfault, -⟩ | ⟨-, hans⟩
    · exact ⟨trivial, hwhole, herror _ (by simp [Orderly, hfault])⟩
    · cases hans
  | malformed s h =>
    obtain ⟨content, rfl⟩ := Option.isSome_iff_exists.1 hfacts
    obtain ⟨hans, rfl⟩ := Prod.mk.inj (Option.some.inj hhandle)
    rcases fault_cases hans with ⟨-, hans⟩ | ⟨-, hans⟩
    · cases hans
    · cases hans
      obtain ⟨key, hcut⟩ := hwhole content rfl
      rw [parse_of_cut hcut] at h
      refine ⟨trivial, hwhole, herror _ ?_⟩
      rintro ⟨-, content', heq, hlen⟩
      cases heq
      rw [if_pos hlen] at h
      cases h
  | loaded s key h =>
    obtain ⟨content, rfl⟩ := Option.isSome_iff_exists.1 hfacts
    obtain ⟨hans, rfl⟩ := Prod.mk.inj (Option.some.inj hhandle)
    rcases fault_cases hans with ⟨-, hans⟩ | ⟨hfault, hans⟩
    · cases hans
    · cases hans
      obtain ⟨key', hcut⟩ := hwhole content rfl
      rw [parse_of_cut hcut] at h
      split at h
      · rename_i hlen
        cases h
        refine ⟨?_, hwhole, hgoes _ (by simp) ⟨hfault, content, rfl, hlen⟩⟩
        rcases prefix_keyLine hcut with heq | heq | ⟨hshort, -⟩
        · exact .inl (congrArg some heq)
        · exact .inr (congrArg some heq)
        · omega
      · cases h
  | undrawn =>
    obtain ⟨hans, rfl⟩ := Prod.mk.inj (Option.some.inj hhandle)
    have hfault : c.fault = true := by
      by_contra hnot
      rw [if_neg hnot] at hans
      cases hans
    exact ⟨trivial, hwhole, herror _ (by simp [Orderly, hfault])⟩
  | drawn key =>
    obtain ⟨hans, rfl⟩ := Prod.mk.inj (Option.some.inj hhandle)
    have hfault : c.fault = false := by
      by_contra hnot
      rw [if_pos (by simpa using hnot)] at hans
      cases hans
    exact ⟨trivial, hwhole, hgoes _ (by simp) hfault⟩
  | unmade key e =>
    obtain ⟨hans, rfl⟩ := Prod.mk.inj (Option.some.inj hhandle)
    rcases fault_cases hans with ⟨hfault, -⟩ | ⟨-, hans⟩
    · exact ⟨trivial, hwhole, herror _ (by simp [Orderly, hfault])⟩
    · cases hans
  | made key =>
    obtain ⟨hans, rfl⟩ := Prod.mk.inj (Option.some.inj hhandle)
    rcases fault_cases hans with ⟨-, hans⟩ | ⟨hfault, -⟩
    · cases hans
    · exact ⟨trivial, hwhole, hgoes _ (by simp) hfault⟩
  | refused key e =>
    simp only [handle] at hhandle
    split at hhandle
    · rename_i hbusy
      cases hhandle
      refine ⟨trivial, hwhole, herror _ ?_⟩
      rintro ⟨hfault, rfl⟩
      rw [hfault] at hbusy
      cases hbusy
    · cases hhandle
  | created key =>
    simp only [handle] at hhandle
    split at hhandle
    · cases hhandle
    · rename_i hfree
      cases hhandle
      obtain ⟨hfault, hnone⟩ := Bool.or_eq_false_iff.1 (Bool.eq_false_iff.2 hfree)
      have hne : digits key ≠ [] := by
        intro heq
        have hlen := digits_length key
        rw [heq] at hlen
        cases hlen
      refine ⟨⟨hne, [], rfl, List.nil_append _⟩, ?_, hgoes _ (by simp) ⟨hfault, by simpa using hnone⟩⟩
      intro content hcontent
      cases hcontent
      exact ⟨key, List.nil_prefix⟩
  | unwritten key rest e =>
    simp only [handle] at hhandle
    split at hhandle
    · rename_i hfault
      cases hhandle
      exact ⟨trivial, hwhole, herror _ (by simp [Orderly, hfault])⟩
    · cases hhandle
  | stuck key rest =>
    obtain ⟨-, hcount, rfl⟩ := written_cases hhandle
    obtain ⟨hne, content, rfl, hrest⟩ := hfacts
    have hpos := List.length_pos_iff.2 hne
    refine ⟨trivial, ?_, herror _ ?_⟩
    · simpa using hwhole
    · rintro ⟨-, hsome⟩
      omega
  | wrote key rest n h =>
    obtain ⟨hfault, hcount, rfl⟩ := written_cases hhandle
    obtain ⟨-, content, rfl, hrest⟩ := hfacts
    have hwritten : (content ++ rest.take (n + 1)) ++ rest.drop (n + 1) = digits key := by
      rw [List.append_assoc, List.take_append_drop, hrest]
    refine ⟨⟨h, _, rfl, hwritten⟩, ?_, hgoes _ (by simp) ⟨hfault, by omega⟩⟩
    intro content' heq
    cases heq
    exact ⟨key, whole_digits hwritten⟩
  | ended key rest n h =>
    obtain ⟨hfault, hcount, rfl⟩ := written_cases hhandle
    obtain ⟨-, content, rfl, hrest⟩ := hfacts
    have hwritten : content ++ rest.take (n + 1) = digits key := by
      rw [List.take_of_length_le (List.drop_eq_nil_iff.1 h), hrest]
    refine ⟨congrArg some hwritten, ?_, hgoes _ (by simp) ⟨hfault, by omega⟩⟩
    intro content' heq
    cases heq
    exact ⟨key, whole_digits ((List.append_nil _).trans hwritten)⟩
  | unended key e =>
    simp only [handle] at hhandle
    split at hhandle
    · rename_i hfault
      cases hhandle
      exact ⟨trivial, hwhole, herror _ (by simp [Orderly, hfault])⟩
    · cases hhandle
  | endless key =>
    obtain ⟨-, hcount, rfl⟩ := written_cases hhandle
    refine ⟨trivial, ?_, herror _ ?_⟩
    · simpa using hwhole
    · rintro ⟨-, hsome⟩
      rw [List.length_singleton] at hcount
      omega
  | lined key n =>
    obtain ⟨hfault, hcount, rfl⟩ := written_cases hhandle
    have hline : file.map (· ++ ['\n'].take (n + 1)) = some (keyLine key) := by
      rw [show file = some (digits key) from hfacts]
      simp [keyLine]
    rw [hline]
    refine ⟨rfl, ?_, hgoes _ (by simp) ⟨hfault, by omega⟩⟩
    intro content heq
    rw [← Option.some.inj heq]
    exact ⟨key, List.prefix_refl _⟩
  | unsynced key e =>
    obtain ⟨hans, rfl⟩ := Prod.mk.inj (Option.some.inj hhandle)
    rcases fault_cases hans with ⟨hfault, -⟩ | ⟨-, hans⟩
    · exact ⟨trivial, hwhole, herror _ (by simp [Orderly, hfault])⟩
    · cases hans
  | synced key =>
    obtain ⟨hans, rfl⟩ := Prod.mk.inj (Option.some.inj hhandle)
    rcases fault_cases hans with ⟨-, hans⟩ | ⟨hfault, -⟩
    · cases hans
    · exact ⟨.inr hfacts, hwhole, hgoes _ (by simp) hfault⟩

/-- How many operations a call still has before it, at most. -/
def Stage.left : Stage → Nat
  | .look => 70
  | .perms => 2
  | .read => 1
  | .draw => 69
  | .mkdir _ => 68
  | .create _ => 67
  | .write _ rest => rest.length + 2
  | .newline _ => 2
  | .sync _ => 1
  | .done _ => 0

theorem Facts.rest {key : H256} (h : Facts file σ) : σ ≠ .write key [] := by
  rintro rfl
  exact h.1 rfl

theorem Moves.left_lt (hmoves : Moves path σ o a σ') (hfacts : Facts file σ) :
    σ'.left < σ.left := by
  cases hmoves with
  | created key =>
    simp only [Stage.left, digits_length]
    omega
  | wrote key rest n h =>
    have hpos := List.length_pos_iff.2 hfacts.1
    simp only [Stage.left, List.length_drop]
    omega
  | ended key rest n h =>
    have hpos := List.length_pos_iff.2 hfacts.1
    simp only [Stage.left]
    omega
  | _ =>
    simp only [Stage.left]
    omega

/-- The next operation of the program is a write. -/
def Writes (p : M Answer) : Prop := ∃ buf k, p = .op (.write buf) k

theorem stage_of_writes (h : Writes (σ.prog path)) :
    (∃ key rest, σ = .write key rest) ∨ ∃ key, σ = .newline key := by
  obtain ⟨buf, k, h⟩ := h
  cases σ with
  | write key rest => exact .inl ⟨key, rest, rfl⟩
  | newline key => exact .inr ⟨key, rfl⟩
  | _ => cases h

theorem writes_write {key : H256} {rest : List Char} (h : rest ≠ []) :
    Writes ((Stage.write key rest).prog path) := by
  cases rest with
  | nil => exact absurd rfl h
  | cons c rest => exact ⟨_, _, rfl⟩

theorem writes_newline (key : H256) : Writes ((Stage.newline key).prog path) := ⟨_, _, rfl⟩

/-- Before a write the digits are not all there, or it is the newline that comes next. -/
theorem Facts.before_write {content buf : List Char} {k : Except String Nat → M Answer}
    (h : Facts (some content) σ) (hprog : σ.prog path = .op (.write buf) k) :
    content.length < 64 ∨ content.length = 64 ∧ buf = ['\n'] := by
  rcases stage_of_writes ⟨buf, k, hprog⟩ with ⟨key, rest, rfl⟩ | ⟨key, rfl⟩
  · obtain ⟨hne, content', heq, hrest⟩ := h
    have hlen := congrArg List.length hrest
    rw [List.length_append, digits_length, ← Option.some.inj heq] at hlen
    have hpos := List.length_pos_iff.2 hne
    exact .inl (by omega)
  · cases hprog
    have hlen := congrArg List.length (Option.some.inj h)
    rw [digits_length] at hlen
    exact .inr ⟨hlen, rfl⟩

/-- What is known without a file stays true with one. -/
theorem Facts.of_none (h : Facts none τ) (file : KeyFile) : Facts file τ := by
  cases τ with
  | perms => cases h
  | read => cases h
  | write key rest =>
    obtain ⟨-, content, heq, -⟩ := h
    cases heq
  | newline key => cases h
  | sync key => cases h
  | done r =>
    match r with
    | .error e => trivial
    | .ok (key, source) => rcases h with h | h <;> cases h
  | _ => trivial

theorem not_writes_of_none (h : Facts none τ) : ¬ Writes (τ.prog path) := by
  intro hwrites
  rcases stage_of_writes hwrites with ⟨key, rest, rfl⟩ | ⟨key, rfl⟩
  · obtain ⟨-, content, heq, -⟩ := h
    cases heq
  · cases h

/-- A call comes to a write from a write, or from the creation of the file. -/
theorem Moves.writes (hmoves : Moves path σ o a σ')
    (hhandle : handle file t o c = some (a, file')) (h : Writes (σ'.prog path)) :
    (∃ buf, o = .write buf) ∨ file = none := by
  cases hmoves with
  | wrote key rest n hrest => exact .inl ⟨_, rfl⟩
  | ended key rest n hrest => exact .inl ⟨_, rfl⟩
  | created key =>
    right
    simp only [handle] at hhandle
    split at hhandle
    · cases hhandle
    · rename_i hfree
      simpa using (Bool.or_eq_false_iff.1 (Bool.eq_false_iff.2 hfree)).2
  | _ => rcases stage_of_writes h with ⟨key, rest, heq⟩ | ⟨key, heq⟩ <;> cases heq

end Steps

section Runs
variable {path : String} {s s' : (loads path).State} {t u : Nat}

/-- Every call is at a stage whose facts hold, at most one is writing, and the file holds the
beginning of one key's line. -/
structure Invariant (s : (loads path).State) : Prop where
  placed : ∀ (t : Nat) (j : KeyCall) (p : M Answer), s.tasks[t]? = some ⟨j, some p⟩ → ∃ σ : Stage, p = σ.prog path ∧
    Facts s.shared σ ∧ (System.trace s.log t).length + σ.left ≤ 70
  single : ∀ (t u : Nat) (j j' : KeyCall) (p q : M Answer), s.tasks[t]? = some ⟨j, some p⟩ →
    s.tasks[u]? = some ⟨j', some q⟩ → Writes p → Writes q → t = u
  whole : Whole s.shared

/-- A task after a step: it is new, or it moved, or it is as it was. -/
theorem task_cases {act : (loads path).Action} {j : KeyCall} {p : M Answer}
    (hstep : System.Transition s act s') (h : s'.tasks[t]? = some ⟨j, some p⟩) :
    (s.tasks[t]? = some ⟨j, some p⟩ ∧ System.trace s'.log t = System.trace s.log t ∧
      ∀ c, act ≠ .exec t c) ∨
    (act = .start j ∧ t = s.tasks.length ∧
      p = loadStoreKeyWith path j.envVal j.allowGenerate ∧ s'.log = s.log) ∨
    ∃ c o k a, act = .exec t c ∧ s.tasks[t]? = some ⟨j, some (.op o k)⟩ ∧ p = k a ∧
      handle s.shared t o c = some (a, s'.shared) ∧ s'.log = (t, ⟨o, a⟩) :: s.log := by
  cases hstep with
  | start j' sh hstart =>
    simp only [System.State.begin] at h
    rw [List.getElem?_append] at h
    split at h
    · exact .inl ⟨h, rfl, fun c hc => by cases hc⟩
    · rename_i hge
      obtain ⟨hlt, heq⟩ := List.getElem?_eq_some_iff.1 h
      rw [List.length_singleton] at hlt
      rw [List.getElem_singleton] at heq
      cases heq
      exact .inr (.inl ⟨rfl, by omega, rfl, rfl⟩)
  | exec u c j' o k a sh htask hhandle =>
    simp only [System.State.advance, Option.toList_none, List.map_nil, List.append_nil] at h
    by_cases hut : u = t
    · subst hut
      rw [List.getElem?_set_self (List.getElem?_eq_some_iff.1 htask).1] at h
      cases h
      have hshared : (s.advance u j o k a sh).shared = sh := by
        simp only [System.State.advance]
        cases k a <;> rfl
      exact .inr (.inr ⟨c, o, k, a, rfl, htask, rfl, by rw [hshared]; exact hhandle, rfl⟩)
    · rw [List.getElem?_set_ne hut] at h
      refine .inl ⟨h, System.trace_cons_ne hut _ _, ?_⟩
      rintro c' heq
      cases heq
      exact hut rfl
  | drop u j' o k htask =>
    simp only [System.State.dropped] at h
    by_cases hut : u = t
    · subst hut
      rw [List.getElem?_set_self (List.getElem?_eq_some_iff.1 htask).1] at h
      cases h
    · rw [List.getElem?_set_ne hut] at h
      exact .inl ⟨h, rfl, fun c hc => by cases hc⟩
  | world w sh hworld => exact w.elim

/-- The shared file after a step, and the call that brought it about. -/
theorem shared_cases {act : (loads path).Action} (hstep : System.Transition s act s') :
    s'.shared = s.shared ∨ ∃ t c j o k a, act = .exec t c ∧
      s.tasks[t]? = some ⟨j, some (.op o k)⟩ ∧ handle s.shared t o c = some (a, s'.shared) := by
  cases hstep with
  | start j sh hstart =>
    cases hstart
    exact .inl rfl
  | exec t c j o k a sh htask hhandle =>
    have hshared : (s.advance t j o k a sh).shared = sh := by
      simp only [System.State.advance]
      cases k a <;> rfl
    exact .inr ⟨t, c, j, o, k, a, rfl, htask, by rw [hshared]; exact hhandle⟩
  | drop t j o k htask => exact .inl rfl
  | world w sh hworld => exact w.elim

/-- Every call that is started may generate a key and has none from the environment. -/
def Unset (_ : (loads path).State) : (loads path).Action → Prop
  | .start j => j.Fresh
  | _ => True

theorem invariant_step {act : (loads path).Action} (hfresh : Unset s act)
    (htraces : System.trace s.log s.tasks.length = []) (hinv : Invariant s)
    (hstep : System.Transition s act s') : Invariant s' := by
  have hothers : ∀ u j p, s.tasks[u]? = some ⟨j, some p⟩ → (∀ c, act ≠ .exec u c) →
      ∀ τ : Stage, p = τ.prog path → Facts s.shared τ → Facts s'.shared τ := by
    intro u j p htask hne τ hp hτ
    rcases shared_cases hstep with hsame | ⟨t, c, j', o, k, a, rfl, htask', hhandle⟩
    · rwa [hsame]
    · obtain ⟨σ, hσ, hfacts, -⟩ := hinv.placed t j' _ htask'
      have hnot : Writes (.op o k : M Answer) → ¬ Writes (τ.prog path) := by
        intro hwrites hwrites'
        subst hp
        cases hinv.single t u j' j _ _ htask' htask hwrites hwrites'
        exact hne c rfl
      generalize hfile : s'.shared = file' at hhandle
      cases grown_of_handle hhandle with
      | same => exact hτ
      | created ho hnone =>
        rw [hnone] at hτ
        exact hτ.of_none _
      | written content buf n ho hcontent =>
        subst ho
        rw [hcontent] at hτ hfacts
        have hquiet := hnot ⟨buf, k, rfl⟩
        refine hτ.grown ?_ ?_ (hfacts.before_write hσ.symm)
        · rintro key rest rfl
          exact hquiet (writes_write hτ.1)
        · rintro key rfl
          exact hquiet (writes_newline key)
  have hspec : ∀ t c j o k a σ, act = .exec t c → s.tasks[t]? = some ⟨j, some (.op o k)⟩ →
      handle s.shared t o c = some (a, s'.shared) → Stage.prog path σ = .op o k →
      Facts s.shared σ → ∃ σ', Moves path σ o a σ' ∧ k a = σ'.prog path ∧
        Facts s'.shared σ' ∧ Whole s'.shared ∧ σ'.left < σ.left := by
    intro t c j o k a σ hact htask hhandle hσ hfacts
    obtain ⟨σ', hmoves, hprog⟩ := moves_of_prog (fun _ => hfacts.rest) hσ a
    obtain ⟨hfacts', hwhole', -⟩ := step_spec hmoves hhandle hfacts hinv.whole
    exact ⟨σ', hmoves, hprog, hfacts', hwhole', hmoves.left_lt hfacts⟩
  have hlook : ∀ j : KeyCall, j.Fresh →
      ¬ Writes (loadStoreKeyWith path j.envVal j.allowGenerate) := by
    intro j hj hwrites
    rw [prog_loadStoreKeyWith hj] at hwrites
    rcases stage_of_writes hwrites with ⟨key, rest, heq⟩ | ⟨key, heq⟩ <;> cases heq
  -- a call that comes to a write was writing, or has just created the file nobody could write to
  have hmoved : ∀ t u c j j' o k a q, act = .exec t c → s.tasks[t]? = some ⟨j, some (.op o k)⟩ →
      handle s.shared t o c = some (a, s'.shared) → Writes (k a) →
      s.tasks[u]? = some ⟨j', some q⟩ → Writes q → t = u := by
    intro t u c j j' o k a q hact htask hhandle hwrites htask' hwrites'
    obtain ⟨σ, hσ, hfacts, -⟩ := hinv.placed t j _ htask
    obtain ⟨σ', hmoves, hprog, -⟩ := hspec t c j o k a σ hact htask hhandle hσ.symm hfacts
    rw [hprog] at hwrites
    rcases hmoves.writes hhandle hwrites with ⟨buf, rfl⟩ | hnone
    · exact hinv.single t u j j' _ q htask htask' ⟨buf, k, rfl⟩ hwrites'
    · obtain ⟨τ, rfl, hτ, -⟩ := hinv.placed u j' q htask'
      rw [hnone] at hτ
      exact absurd hwrites' (not_writes_of_none hτ)
  constructor
  · intro t j p htask
    rcases task_cases hstep htask with ⟨hold, htrace, hne⟩ | ⟨rfl, rfl, rfl, hlog⟩ |
      ⟨c, o, k, a, rfl, hold, rfl, hhandle, hlog⟩
    · obtain ⟨σ, rfl, hfacts, hleft⟩ := hinv.placed t j p hold
      exact ⟨σ, rfl, hothers t j _ hold hne σ rfl hfacts, by rwa [htrace]⟩
    · refine ⟨.look, prog_loadStoreKeyWith hfresh, trivial, ?_⟩
      rw [hlog, htraces]
      exact Nat.le_refl 70
    · obtain ⟨σ, hσ, hfacts, hleft⟩ := hinv.placed t j _ hold
      obtain ⟨σ', hmoves, hprog, hfacts', -, hlt⟩ :=
        hspec t c j o k a σ rfl hold hhandle hσ.symm hfacts
      refine ⟨σ', hprog, hfacts', ?_⟩
      rw [hlog, System.trace_cons_self, List.length_cons]
      omega
  · intro t u j j' p q htask htask' hwrites hwrites'
    rcases task_cases hstep htask with ⟨hold, -, -⟩ | ⟨rfl, -, rfl, -⟩ |
      ⟨c, o, k, a, rfl, hold, rfl, hhandle, -⟩
    · rcases task_cases hstep htask' with ⟨hold', -, -⟩ | ⟨rfl, -, rfl, -⟩ |
        ⟨c, o, k, a, rfl, hold', rfl, hhandle, -⟩
      · exact hinv.single t u j j' p q hold hold' hwrites hwrites'
      · exact absurd hwrites' (hlook j' hfresh)
      · exact (hmoved u t c j' j o k a p rfl hold' hhandle hwrites' hold hwrites).symm
    · exact absurd hwrites (hlook j hfresh)
    · rcases task_cases hstep htask' with ⟨hold', -, -⟩ | ⟨heq, -⟩ | ⟨c', o', k', a', heq, -⟩
      · exact hmoved t u c j j' o k a q rfl hold hhandle hwrites hold' hwrites'
      · cases heq
      · cases heq
        rfl
  · rcases shared_cases hstep with hsame | ⟨t, c, j, o, k, a, rfl, htask, hhandle⟩
    · rw [hsame]
      exact hinv.whole
    · obtain ⟨σ, hσ, hfacts, -⟩ := hinv.placed t j _ htask
      obtain ⟨-, -, -, -, hwhole, -⟩ := hspec t c j o k a σ rfl htask hhandle hσ.symm hfacts
      exact hwhole

/-- The call has ended with the result. -/
def Returned (s : (loads path).State) (t : Nat) (r : Answer) : Prop :=
  ∃ j, s.tasks[t]? = some ⟨j, some (.ret r)⟩

def Unharmed (s : (loads path).State) : Prop :=
  ∀ t r, Returned s t r → ∃ key source, r = .ok (key, source)

/-- The step is none of an operation that does not go well. -/
def Goes (s : (loads path).State) : (loads path).Action → Prop
  | .exec t c => ∀ j o k, s.tasks[t]? = some ⟨j, some (.op o k)⟩ → Orderly s.shared o c
  | _ => True

/-- A step keeps every call unharmed exactly when it goes well. -/
theorem unharmed_step {act : (loads path).Action} (hfresh : Unset s act) (hinv : Invariant s)
    (hstep : System.Transition s act s') (hs : Unharmed s) : Unharmed s' ↔ Goes s act := by
  have hold : ∀ t r, Returned s' t r → (∀ c, act ≠ .exec t c) →
      ∃ key source, r = .ok (key, source) := by
    rintro t r ⟨j, htask⟩ hne
    rcases task_cases hstep htask with ⟨hold, -, -⟩ | ⟨rfl, -, hprog, -⟩ | ⟨c, o, k, a, rfl, -⟩
    · exact hs t r ⟨j, hold⟩
    · rw [prog_loadStoreKeyWith hfresh] at hprog
      cases hprog
    · exact absurd rfl (hne c)
  cases hstep with
  | start j sh hstart => exact ⟨fun _ => trivial, fun _ t r hr => hold t r hr nofun⟩
  | exec t c j o k a sh htask hhandle =>
    obtain ⟨σ, hσ, hfacts, -⟩ := hinv.placed t j _ htask
    obtain ⟨σ', hmoves, hprog⟩ := moves_of_prog (fun _ => hfacts.rest) hσ.symm a
    obtain ⟨hfacts', -, hspec⟩ := step_spec (t := t) hmoves hhandle hfacts hinv.whole
    have htask' : (s.advance t j o k a sh).tasks[t]? = some ⟨j, some (σ'.prog path)⟩ := by
      rw [System.advance_task (List.getElem?_eq_some_iff.1 htask).1, hprog]
    have hgoes : Goes s (.exec t c) ↔ Orderly s.shared o c := by
      constructor
      · intro h
        exact h j o k htask
      · intro h j' o' k' htask''
        rw [htask] at htask''
        cases htask''
        exact h
    rw [hgoes]
    constructor
    · intro hunharmed
      by_contra hnot
      obtain ⟨e, rfl⟩ := hspec.2 hnot
      obtain ⟨key, source, heq⟩ := hunharmed t _ ⟨j, htask'⟩
      cases heq
    · intro horderly u r hr
      by_cases hut : u = t
      · subst hut
        obtain ⟨j', hret⟩ := hr
        rw [htask'] at hret
        have hret' := congrArg System.Task.prog (Option.some.inj hret)
        rcases prog_eq_ret (Option.some.inj hret') with rfl | ⟨key, rfl⟩
        · match r with
          | .ok (key, source) => exact ⟨key, source, rfl⟩
          | .error e => exact absurd horderly (hspec.1 ⟨e, rfl⟩)
        · exact absurd rfl hfacts'.1
      · refine hold u r hr ?_
        rintro c' heq
        cases heq
        exact hut rfl
  | drop t j o k htask => exact ⟨fun _ => trivial, fun _ t r hr => hold t r hr nofun⟩
  | world w sh hworld => exact w.elim

/-- A call that has returned has returned for ever. -/
theorem returned_step {act : (loads path).Action} {r : Answer}
    (hstep : System.Transition s act s') (h : Returned s t r) : Returned s' t r := by
  obtain ⟨j, htask⟩ := h
  have hlt := (List.getElem?_eq_some_iff.1 htask).1
  refine ⟨j, ?_⟩
  cases hstep with
  | start j' sh hstart =>
    rw [System.State.begin, List.getElem?_append_left hlt]
    exact htask
  | exec u c j' o k a sh htask' hhandle =>
    simp only [System.State.advance, Option.toList_none, List.map_nil, List.append_nil]
    rw [List.getElem?_set_ne, htask]
    rintro rfl
    rw [htask] at htask'
    cases htask'
  | drop u j' o k htask' =>
    simp only [System.State.dropped]
    rw [List.getElem?_set_ne, htask]
    rintro rfl
    rw [htask] at htask'
    cases htask'
  | world w sh hworld => exact w.elim

theorem invariant_init : Invariant ((loads path).init none) where
  placed := fun t j p h => by cases h
  single := fun t u j j' p q h => by cases h
  whole := fun content h => by cases h

theorem invariant_of_reach
    (h : System.Reach (loads path) Unset ((loads path).init none) s) : Invariant s := by
  refine h.invariant Invariant invariant_init ?_
  intro s s' act hr hinv hfresh hstep
  exact invariant_step hfresh (hr.trace_eq_nil (Nat.le_refl _)) hinv hstep

/-- Every step of the run goes well. -/
def AllGo : (loads path).State → List (loads path).Action → Prop
  | _, [] => True
  | s, act :: acts => Goes s act ∧ ∀ s', (loads path).step s act = some s' → AllGo s' acts

theorem run_cons {s₀ : (loads path).State} {act : (loads path).Action}
    {acts : List (loads path).Action}
    (hrun : (loads path).run (fun _ _ => true) s₀ (act :: acts) = some s) :
    ∃ s₁, (loads path).step s₀ act = some s₁ ∧
      (loads path).run (fun _ _ => true) s₁ acts = some s := by
  simp only [System.run, if_true] at hrun
  exact Option.bind_eq_some_iff.1 hrun

/-- Harm that was done stays. -/
theorem unharmed_of_run {s₀ : (loads path).State} {acts : List (loads path).Action}
    (hrun : (loads path).run (fun _ _ => true) s₀ acts = some s) (hs : Unharmed s) :
    Unharmed s₀ := by
  induction acts generalizing s₀ with
  | nil =>
    cases hrun
    exact hs
  | cons act acts ih =>
    obtain ⟨s₁, hstep, hrest⟩ := run_cons hrun
    intro t r hr
    exact ih hrest t r (returned_step (System.step_cases hstep) hr)

theorem unset_of_fresh {act : (loads path).Action} {acts : List (loads path).Action}
    (hfresh : ∀ j, .start j ∈ act :: acts → j.Fresh) (s : (loads path).State) : Unset s act := by
  match act with
  | .start j => exact hfresh j (by simp)
  | .exec _ _ => trivial
  | .drop _ => trivial

theorem reach_of_run {s₀ : (loads path).State} {acts : List (loads path).Action}
    (hfresh : ∀ j, .start j ∈ acts → j.Fresh)
    (hreach : System.Reach (loads path) Unset ((loads path).init none) s₀)
    (hrun : (loads path).run (fun _ _ => true) s₀ acts = some s) :
    System.Reach (loads path) Unset ((loads path).init none) s := by
  induction acts generalizing s₀ with
  | nil =>
    cases hrun
    exact hreach
  | cons act acts ih =>
    obtain ⟨s₁, hstep, hrest⟩ := run_cons hrun
    exact ih (fun j hj => hfresh j (List.mem_cons_of_mem _ hj))
      (hreach.step (unset_of_fresh hfresh s₀) hstep) hrest

theorem unharmed_run {s₀ : (loads path).State} {acts : List (loads path).Action}
    (hfresh : ∀ j, .start j ∈ acts → j.Fresh)
    (hreach : System.Reach (loads path) Unset ((loads path).init none) s₀)
    (hrun : (loads path).run (fun _ _ => true) s₀ acts = some s) (hs₀ : Unharmed s₀) :
    Unharmed s ↔ AllGo s₀ acts := by
  induction acts generalizing s₀ with
  | nil =>
    cases hrun
    exact ⟨fun _ => trivial, fun _ => hs₀⟩
  | cons act acts ih =>
    obtain ⟨s₁, hstep, hrest⟩ := run_cons hrun
    have hunset := unset_of_fresh hfresh s₀
    have hgoes := unharmed_step hunset (invariant_of_reach hreach) (System.step_cases hstep) hs₀
    have hrest₁ : Unharmed s₁ → (Unharmed s ↔ AllGo s₁ acts) :=
      ih (fun j hj => hfresh j (List.mem_cons_of_mem _ hj)) (hreach.step hunset hstep) hrest
    constructor
    · intro hs
      have hs₁ := unharmed_of_run hrest hs
      refine ⟨hgoes.1 hs₁, ?_⟩
      intro s₁' hstep'
      cases hstep.symm.trans hstep'
      exact (hrest₁ hs₁).1 hs
    · intro hall
      exact (hrest₁ (hgoes.2 hall.1)).2 (hall.2 s₁ hstep)

theorem key_of_returned (hinv : Invariant s) {key : H256} {source : KeySource}
    (h : Returned s t (.ok (key, source))) :
    ∃ content, s.shared = some content ∧ parseHexKey (String.ofList content) = some key := by
  obtain ⟨j, htask⟩ := h
  obtain ⟨σ, hσ, hfacts, -⟩ := hinv.placed t j _ htask
  have hkey : ∀ content, content <+: keyLine key → 64 ≤ content.length →
      parseHexKey (String.ofList content) = some key := by
    intro content hcut hlen
    rw [parse_of_cut hcut, if_pos hlen]
  rcases prog_eq_ret hσ.symm with rfl | ⟨key', rfl⟩
  · rcases hfacts with hfile | hfile
    · refine ⟨_, hfile, hkey _ (List.prefix_append _ _) ?_⟩
      rw [digits_length]
    · refine ⟨_, hfile, hkey _ (List.prefix_refl _) ?_⟩
      rw [keyLine_length]
      omega
  · exact absurd rfl hfacts.1

theorem isSome_handle (file : KeyFile) (t : Nat) (o : Op) (c : Chance) :
    (handle file t o c).isSome = true := by
  cases o with
  | readToString => cases file <;> rfl
  | createNew =>
    simp only [handle]
    split <;> rfl
  | write buf =>
    simp only [handle]
    split <;> rfl
  | _ => rfl

/-- Nothing fails, and a write takes all it is given. -/
def calm : (loads path).Action → Bool
  | .exec _ c => !c.fault && 64 ≤ c.count
  | .drop _ => false
  | _ => true

def fresh : KeyCall := ⟨none, true⟩

def sure : Chance := { count := 64, message := "File exists (os error 17)" }

/-- Both calls look before either creates the file. -/
def lateCreation : List (loads "k").Action :=
  System.script [fresh, fresh] ([0, 1, 0, 1, 0, 1, 0, 1].map (·, sure))

/-- The second call looks when the file has been created, and reads it before it is written. -/
def earlyRead : List (loads "k").Action :=
  System.script [fresh, fresh] ([0, 0, 0, 0, 1, 1, 1].map (·, sure))

/-- One call by itself, to its end. -/
def soleBoot : List (loads "k").Action :=
  System.script [fresh] (List.replicate 7 (0, sure))

end Runs

end Gateway.KeyRace
