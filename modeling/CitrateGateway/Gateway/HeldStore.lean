import CitrateGateway.Gateway.StoreRuns

/-!
# A store that a task holds

What a task has open no other task touches, so what it reads and writes there can be followed
exactly, whatever happens on the rest of the disk. The rules are for a task that knows more of the
disk besides and may make certain databases only of the one it holds.
-/

namespace Gateway.Vault
set_option autoImplicit false
open Words Effects Durable Files

section Rules
variable {α : Type} {R : Setting FileSig Disk Chance} {guar : List Event → Event → Prop}
variable {t d : Nat} {F : Disk → Prop} {allowed : Database → Database → Prop}

/-- Operations that write no rows of the database and concern no other. -/
def Op.inspects (d : Nat) : Files.Op → Bool
  | .get e _ | .iterator e | .flush e | .close e => e == d
  | .getrandom => true
  | _ => false

/-- A task that holds a database: `F` is what else it knows, `allowed` what it may make of the
database. -/
structure Hold (R : Setting FileSig Disk Chance) (guar : List Event → Event → Prop) (t d : Nat)
    (F : Disk → Prop) (allowed : Database → Database → Prop) : Prop where
  handle : ∀ disk o c, R.handle disk o c = perform t disk o c
  rely : ∀ s s', R.rely s s' → Undisturbed t s s'
  guar : ∀ h (o : Files.Op) (x : o.Ans), Op.inspects d o = true → guar h ⟨o, x⟩
  known : ∀ s s', R.rely s s' → F s → F s'
  apart : ∀ disk dir, F disk → F (disk.setDir d dir)
  inv : ∀ disk db db' holder, R.inv disk → F disk → disk.opened t d = some db →
    allowed db db' → R.inv (disk.setDir d ⟨some db', holder⟩)

/-- The database the task holds, and the rest that it knows. -/
def Has (F : Disk → Prop) (t d : Nat) (db : Database) (disk : Disk) : Prop :=
  F disk ∧ disk.opened t d = some db

variable {post : List Event → Disk → α → Prop} {h : List Event} {disk : Disk} {db : Database}

theorem Hold.moved (hold : Hold R guar t d F allowed) {disk' : Disk} (hrely : R.rely disk disk')
    (hhas : Has F t d db disk) : Has F t d db disk' :=
  ⟨hold.known _ _ hrely hhas.1, (hold.rely _ _ hrely).opened hhas.2⟩

theorem Hold.written (hold : Hold R guar t d F allowed) (hhas : Has F t d db disk)
    (db' : Database) : Has F t d db' (disk.write t d db') :=
  ⟨hold.apart _ _ hhas.1, opened_write hhas.2 db'⟩

/-- An operation that can be performed on what the task holds. -/
theorem Hold.perform (hold : Hold R guar t d F allowed) {o : Files.Op} {k : o.Ans → M α}
    (hhas : Has F t d db disk)
    (hsome : ∀ disk₁, Has F t d db disk₁ → ∀ c, (Files.perform t disk₁ o c).isSome)
    (hk : ∀ disk₁ x disk₂ c, Has F t d db disk₁ → R.inv disk₁ →
      Files.perform t disk₁ o c = some (x, disk₂) →
        guar h ⟨o, x⟩ ∧ R.inv disk₂ ∧ (k x).Safe R guar post (⟨o, x⟩ :: h) disk₂) :
    (.perform (E := FileSig) o >>= k : M α).Safe R guar post h disk := by
  rw [Prog.safe_perform_bind]
  apply Prog.Safe.op
  intro disk₁ hrely hinv
  have hhas₁ := hold.moved hrely hhas
  constructor
  · intro c
    rw [hold.handle]
    exact hsome disk₁ hhas₁ c
  · intro c x disk₂ hstep
    rw [hold.handle] at hstep
    exact hk disk₁ x disk₂ c hhas₁ hinv hstep

/-- What the task reads is what it holds. -/
theorem Hold.get (hold : Hold R guar t d F allowed) {key : Bytes}
    {k : Except String (Option Bytes) → M α} (hhas : Has F t d db disk)
    (hk : ∀ x h' disk', Has F t d db disk' → (x = .ok (db.get key) ∨ ∃ msg, x = .error msg) →
      (k x).Safe R guar post h' disk') :
    (Files.get d key >>= k).Safe R guar post h disk := by
  apply hold.perform hhas
  · intro disk₁ hhas₁ c
    exact (isSome_of_opened hhas₁.2 c).1 key
  · intro disk₁ x disk₂ c hhas₁ hinv hstep
    obtain ⟨rfl, db', hopen, hx⟩ := perform_get hstep
    rw [hhas₁.2] at hopen
    cases hopen
    exact ⟨hold.guar _ _ _ (by simp [Op.inspects]), hinv, hk x _ _ hhas₁ hx⟩

theorem Hold.iterator (hold : Hold R guar t d F allowed)
    {k : List (Except String (Bytes × Bytes)) → M α} (hhas : Has F t d db disk)
    (hk : ∀ x h' disk', Has F t d db disk' → (x = (rowsOf db).map .ok ∨
      ∃ n msg, x = ((rowsOf db).map .ok).take n ++ [.error msg]) →
        (k x).Safe R guar post h' disk') :
    (Files.iterator d >>= k).Safe R guar post h disk := by
  apply hold.perform hhas
  · intro disk₁ hhas₁ c
    exact (isSome_of_opened hhas₁.2 c).2.1
  · intro disk₁ x disk₂ c hhas₁ hinv hstep
    obtain ⟨rfl, db', hopen, hx⟩ := perform_iterator hstep
    rw [hhas₁.2] at hopen
    cases hopen
    exact ⟨hold.guar _ _ _ (by simp [Op.inspects]), hinv, hk x _ _ hhas₁ hx⟩

/-- A write that was asked for is there when it succeeds; when it fails it may be there. -/
inductive Wrote (db unsynced written : Database) : Except String Unit → Database → Prop
  | ok : Wrote db unsynced written (.ok ()) written
  | lost (msg : String) : Wrote db unsynced written (.error msg) db
  | kept (msg : String) : Wrote db unsynced written (.error msg) unsynced

theorem Hold.put (hold : Hold R guar t d F allowed) {key value : Bytes} {sync : Bool}
    {k : Except String Unit → M α} (hhas : Has F t d db disk)
    (hguar : ∀ x, guar h ⟨.put d key value sync, x⟩)
    (hput : allowed db (db.put ⟨key, value⟩)) (hcommit : allowed db (db.commit [⟨key, value⟩]))
    (hk : ∀ x db' h' disk', Has F t d db' disk' →
      Wrote db (db.put ⟨key, value⟩)
        (if sync then db.commit [⟨key, value⟩] else db.put ⟨key, value⟩) x db' →
          (k x).Safe R guar post h' disk') :
    (Files.put d key value sync >>= k).Safe R guar post h disk := by
  apply hold.perform hhas
  · intro disk₁ hhas₁ c
    exact (isSome_of_opened hhas₁.2 c).2.2.1 key value sync
  · intro disk₁ x disk₂ c hhas₁ hinv hstep
    obtain ⟨db', hopen, hx⟩ := perform_put hstep
    rw [hhas₁.2] at hopen
    cases hopen
    have hwritten : ∀ db', allowed db db' → R.inv (disk₁.write t d db') :=
      fun db' => hold.inv disk₁ db db' _ hinv hhas₁.1 hhas₁.2
    refine ⟨hguar x, ?_⟩
    rcases hx with ⟨rfl, rfl⟩ | ⟨msg, rfl, rfl | rfl⟩
    · refine ⟨hwritten _ ?_, hk _ _ _ _ (hold.written hhas₁ _) .ok⟩
      split
      · exact hcommit
      · exact hput
    · exact ⟨hinv, hk _ _ _ _ hhas₁ (.lost msg)⟩
    · exact ⟨hwritten _ hput, hk _ _ _ _ (hold.written hhas₁ _) (.kept msg)⟩

theorem Hold.writeBatch (hold : Hold R guar t d F allowed) {group : List (Bytes × Bytes)}
    {k : Except String Unit → M α} (hhas : Has F t d db disk)
    (hguar : ∀ x, guar h ⟨.writeBatch d group, x⟩)
    (hput : allowed db ((group.map fun row => ⟨row.1, row.2⟩).foldl .put db))
    (hcommit : allowed db (db.commit (group.map fun row => ⟨row.1, row.2⟩)))
    (hk : ∀ x db' h' disk', Has F t d db' disk' →
      Wrote db ((group.map fun row => ⟨row.1, row.2⟩).foldl .put db)
        (db.commit (group.map fun row => ⟨row.1, row.2⟩)) x db' →
          (k x).Safe R guar post h' disk') :
    (Files.writeBatch d group >>= k).Safe R guar post h disk := by
  apply hold.perform hhas
  · intro disk₁ hhas₁ c
    exact (isSome_of_opened hhas₁.2 c).2.2.2.1 group
  · intro disk₁ x disk₂ c hhas₁ hinv hstep
    obtain ⟨db', hopen, hx⟩ := perform_writeBatch hstep
    rw [hhas₁.2] at hopen
    cases hopen
    have hwritten : ∀ db', allowed db db' → R.inv (disk₁.write t d db') :=
      fun db' => hold.inv disk₁ db db' _ hinv hhas₁.1 hhas₁.2
    refine ⟨hguar x, ?_⟩
    rcases hx with ⟨rfl, rfl⟩ | ⟨msg, rfl, rfl | rfl⟩
    · exact ⟨hwritten _ hcommit, hk _ _ _ _ (hold.written hhas₁ _) .ok⟩
    · exact ⟨hinv, hk _ _ _ _ hhas₁ (.lost msg)⟩
    · exact ⟨hwritten _ hput, hk _ _ _ _ (hold.written hhas₁ _) (.kept msg)⟩

theorem Hold.flush (hold : Hold R guar t d F allowed) {k : Except String Unit → M α}
    (hhas : Has F t d db disk) (hsame : allowed db db) (hreplay : allowed db (db.commit []))
    (hk : ∀ x db' h' disk', Has F t d db' disk' → Wrote db db (db.commit []) x db' →
      (k x).Safe R guar post h' disk') :
    (Files.flush d >>= k).Safe R guar post h disk := by
  apply hold.perform hhas
  · intro disk₁ hhas₁ c
    exact (isSome_of_opened hhas₁.2 c).2.2.2.2.1
  · intro disk₁ x disk₂ c hhas₁ hinv hstep
    obtain ⟨db', hopen, hx⟩ := perform_flush hstep
    rw [hhas₁.2] at hopen
    cases hopen
    have hwritten : ∀ db', allowed db db' → R.inv (disk₁.write t d db') :=
      fun db' => hold.inv disk₁ db db' _ hinv hhas₁.1 hhas₁.2
    refine ⟨hold.guar _ _ _ (by simp [Op.inspects]), ?_⟩
    rcases hx with ⟨rfl, rfl⟩ | ⟨msg, rfl, rfl | rfl⟩
    · exact ⟨hwritten _ hreplay, hk _ _ _ _ (hold.written hhas₁ _) .ok⟩
    · exact ⟨hinv, hk _ _ _ _ hhas₁ (.lost msg)⟩
    · exact ⟨hwritten _ hsame, hk _ _ _ _ (hold.written hhas₁ _) (.kept msg)⟩

/-- A database that is closed stays in its directory as it was. -/
theorem Hold.close (hold : Hold R guar t d F allowed) {k : Unit → M α}
    (hhas : Has F t d db disk) (hsame : allowed db db)
    (hk : ∀ h' disk', F disk' → disk'.dirs[d]? = some ⟨some db, none⟩ →
      (k ()).Safe R guar post h' disk') :
    (Files.close d >>= k).Safe R guar post h disk := by
  apply hold.perform hhas
  · intro disk₁ hhas₁ c
    exact (isSome_of_opened hhas₁.2 c).2.2.2.2.2
  · intro disk₁ x disk₂ c hhas₁ hinv hstep
    obtain ⟨db', hopen, rfl⟩ := perform_close hstep
    rw [hhas₁.2] at hopen
    cases hopen
    have hdir := lt_of_dir (opened_eq_some.1 hhas₁.2)
    refine ⟨hold.guar _ _ _ (by simp [Op.inspects]), hold.inv disk₁ db db none hinv hhas₁.1 hhas₁.2 hsame, ?_⟩
    exact hk _ _ (hold.apart _ _ hhas₁.1) (dirs_setDir_self hdir)

/-- A nonce is drawn, whatever is held. -/
theorem Hold.getrandom (hold : Hold R guar t d F allowed) {k : Option (BitVec 96) → M α}
    (hhas : Has F t d db disk)
    (hk : ∀ x h' disk', Has F t d db disk' → (k x).Safe R guar post h' disk') :
    (Files.getrandom >>= k).Safe R guar post h disk := by
  apply hold.perform hhas
  · intro disk₁ hhas₁ c
    rfl
  · intro disk₁ x disk₂ c hhas₁ hinv hstep
    cases hstep
    exact ⟨hold.guar _ _ _ (by simp [Op.inspects]), hinv, hk _ _ _ hhas₁⟩

end Rules

section Sealing
variable {α : Type} {crypto : StoreCrypto} {R : Setting FileSig Disk Chance}
variable {guar : List Event → Event → Prop} {t d : Nat} {F : Disk → Prop}
variable {allowed : Database → Database → Prop}
variable {post : List Event → Disk → α → Prop} {h : List Event} {disk : Disk} {db : Database}
variable {master : H256}

/-- The value of a row was sealed under the master key. -/
def Sealed (crypto : StoreCrypto) (master : H256) (key plaintext raw : Bytes) : Prop :=
  ∃ nonce, sealWith crypto master nonce key plaintext = .ok raw

theorem Hold.sealValue (hold : Hold R guar t d F allowed) {key plaintext : Bytes}
    {k : Except CryptError Bytes → M α} (hhas : Has F t d db disk)
    (hk : ∀ r h' disk', Has F t d db disk' →
      (∀ raw, r = .ok raw → Sealed crypto master key plaintext raw) →
        (k r).Safe R guar post h' disk') :
    (Vault.sealValue crypto master key plaintext >>= k).Safe R guar post h disk := by
  rw [Vault.sealValue, Prog.bind_assoc]
  apply hold.getrandom hhas
  intro x h' disk' hhas'
  cases x with
  | none => exact hk _ _ _ hhas' nofun
  | some nonce => exact hk _ _ _ hhas' fun raw hraw => ⟨nonce, hraw⟩

/-- What the marker protocol answers for a database, and what it makes of it. -/
inductive Checked (crypto : StoreCrypto) (master : H256) (db : Database) :
    Except StoreError Unit → Database → Prop
  | unread (msg : String) : Checked crypto master db (.error (.rocks msg)) db
  | found (raw : Bytes) (hraw : db.get encMarkerKey = some raw)
      (hopens : markerOpens crypto master raw = true) : Checked crypto master db (.ok ()) db
  | wrongKey (raw : Bytes) (hraw : db.get encMarkerKey = some raw)
      (hopens : markerOpens crypto master raw = false) :
      Checked crypto master db (.error .wrongKey) db
  | plaintext (hnone : db.get encMarkerKey = none) :
      Checked crypto master db (.error .plaintextStore) db
  | notSealed (e : CryptError) (hnone : db.get encMarkerKey = none) (hrows : rowsOf db = []) :
      Checked crypto master db (.error (.crypt e)) db
  | marked (raw : Bytes) (hnone : db.get encMarkerKey = none) (hrows : rowsOf db = [])
      (hsealed : Sealed crypto master encMarkerKey encMarkerPlaintext raw) :
      Checked crypto master db (.ok ()) (db.commit [⟨encMarkerKey, raw⟩])
  | failed (msg : String) (raw : Bytes) (hnone : db.get encMarkerKey = none)
      (hrows : rowsOf db = [])
      (hsealed : Sealed crypto master encMarkerKey encMarkerPlaintext raw) :
      Checked crypto master db (.error (.rocks msg)) (db.put ⟨encMarkerKey, raw⟩)

/-- A database without rows may be marked. -/
def MayMark (crypto : StoreCrypto) (master : H256) (guar : List Event → Event → Prop) (d : Nat)
    (allowed : Database → Database → Prop) (db : Database) : Prop :=
  db.get encMarkerKey = none → rowsOf db = [] → ∀ raw,
    Sealed crypto master encMarkerKey encMarkerPlaintext raw →
      (∀ h x, guar h ⟨.put d encMarkerKey raw true, x⟩) ∧
      allowed db (db.put ⟨encMarkerKey, raw⟩) ∧ allowed db (db.commit [⟨encMarkerKey, raw⟩])

theorem Hold.checkOrInitEncMarker (hold : Hold R guar t d F allowed)
    {k : Except StoreError Unit → M α} (hhas : Has F t d db disk)
    (hmark : MayMark crypto master guar d allowed db)
    (hk : ∀ r db' h' disk', Has F t d db' disk' → Checked crypto master db r db' →
      (k r).Safe R guar post h' disk') :
    (Vault.checkOrInitEncMarker crypto ⟨d, master⟩ >>= k).Safe R guar post h disk := by
  rw [Vault.checkOrInitEncMarker, Prog.bind_assoc]
  apply hold.get hhas
  intro x h₁ disk₁ hhas₁ hx
  rcases hx with rfl | ⟨msg, rfl⟩
  · cases hraw : db.get encMarkerKey with
    | some raw =>
      dsimp only
      cases hopen : openValue crypto master encMarkerKey raw with
      | error e =>
        refine hk _ _ _ _ hhas₁ (.wrongKey raw hraw ?_)
        rw [markerOpens, hopen]
      | ok pt =>
        dsimp only
        by_cases hpt : pt = encMarkerPlaintext
        · rw [if_neg (not_not.2 hpt)]
          refine hk _ _ _ _ hhas₁ (.found raw hraw ?_)
          rw [markerOpens, hopen]
          exact beq_iff_eq.2 hpt
        · rw [if_pos hpt]
          refine hk _ _ _ _ hhas₁ (.wrongKey raw hraw ?_)
          rw [markerOpens, hopen]
          exact beq_false_of_ne hpt
    | none =>
      dsimp only
      rw [Prog.bind_assoc]
      apply hold.iterator hhas₁
      intro items h₂ disk₂ hhas₂ hitems
      split
      · exact hk _ _ _ _ hhas₂ (.plaintext hraw)
      · rename_i hempty
        have hrows : rowsOf db = [] := by
          rcases hitems with rfl | ⟨n, msg, rfl⟩
          · simpa using hempty
          · simp at hempty
        rw [Prog.bind_assoc]
        apply hold.sealValue hhas₂
        intro r h₃ disk₃ hhas₃ hr
        cases r with
        | error e => exact hk _ _ _ _ hhas₃ (.notSealed e hraw hrows)
        | ok raw =>
          have hsealed := hr raw rfl
          obtain ⟨hguar, hput, hcommit⟩ := hmark hraw hrows raw hsealed
          dsimp only
          rw [Prog.bind_assoc]
          apply hold.put hhas₃ (hguar _) hput hcommit
          intro x db' h₄ disk₄ hhas₄ hwrote
          cases hwrote with
          | ok => exact hk _ _ _ _ hhas₄ (.marked raw hraw hrows hsealed)
          | lost msg => exact hk _ _ _ _ hhas₄ (.unread msg)
          | kept msg => exact hk _ _ _ _ hhas₄ (.failed msg raw hraw hrows hsealed)
  · exact hk _ _ _ _ hhas₁ (.unread msg)

theorem Sealed.sealedUnder {key plaintext raw : Bytes} (h : Sealed crypto master key plaintext raw)
    (hkey : key ≠ encMarkerKey) : SealedUnder crypto master key raw := by
  obtain ⟨nonce, hseal⟩ := h
  exact ⟨nonce, plaintext, hseal, fun heq => absurd heq hkey⟩

/-- Rows sealed under its key may be added to an encrypted database. -/
structure MayWrite (crypto : StoreCrypto) (master : H256) (guar : List Event → Event → Prop)
    (d : Nat) (allowed : Database → Database → Prop) : Prop where
  guar : ∀ h e, guar h e
  allowed : ∀ db db', Encrypted crypto master db → Encrypted crypto master db' → allowed db db'

variable {writes : List Write} {k : Unit → M α}

theorem Wrote.encrypted {unsynced written db' : Database} {x : Except String Unit}
    (hwrote : Wrote db unsynced written x db') (h : Encrypted crypto master db)
    (hunsynced : Encrypted crypto master unsynced) (hwritten : Encrypted crypto master written) :
    Encrypted crypto master db' := by
  cases hwrote with
  | ok => exact hwritten
  | lost msg => exact h
  | kept msg => exact hunsynced

theorem Hold.putVal (hold : Hold R guar t d F allowed)
    (hwrite : MayWrite crypto master guar d allowed) {key : RowKey} {plaintext : Bytes}
    {sync : Bool} {k : Except ValErr Unit → M α} (hhas : Has F t d db disk)
    (hdb : Encrypted crypto master db)
    (hk : ∀ r db' h' disk', Has F t d db' disk' → Encrypted crypto master db' →
      (k r).Safe R guar post h' disk') :
    (Vault.putVal crypto ⟨d, master⟩ key plaintext sync >>= k).Safe R guar post h disk := by
  rw [Vault.putVal, Prog.bind_assoc]
  apply hold.sealValue hhas
  intro r h₁ disk₁ hhas₁ hr
  cases r with
  | error e => exact hk _ _ _ _ hhas₁ hdb
  | ok raw =>
    have hsealed := (hr raw rfl).sealedUnder (rowKey_ne_marker key)
    have hput := hdb.put hsealed
    have hcommit : Encrypted crypto master (db.commit [⟨utf8 (rowKey key), raw⟩]) :=
      hdb.commit (by simpa using hsealed)
    dsimp only
    rw [Prog.bind_assoc]
    apply hold.put hhas₁ (fun x => hwrite.guar _ _) (hwrite.allowed _ _ hdb hput)
      (hwrite.allowed _ _ hdb hcommit)
    intro x db' h₂ disk₂ hhas₂ hwrote
    have hdb' : Encrypted crypto master db' := by
      apply hwrote.encrypted hdb hput
      split
      · exact hcommit
      · exact hput
    cases x with
    | error e => exact hk _ _ _ _ hhas₂ hdb'
    | ok u => exact hk _ _ _ _ hhas₂ hdb'

/-- The entries of a batch that was sealed. -/
def SealedRows (crypto : StoreCrypto) (master : H256) (rows : List (Bytes × Bytes)) : Prop :=
  ∀ row ∈ rows, SealedUnder crypto master row.1 row.2

theorem Hold.sealGroup (hold : Hold R guar t d F allowed) {group : List (RowKey × Bytes)}
    {k : Except ValErr (List (Bytes × Bytes)) → M α} (hhas : Has F t d db disk)
    (hk : ∀ r h' disk', Has F t d db disk' →
      (∀ rows, r = .ok rows → SealedRows crypto master rows) → (k r).Safe R guar post h' disk') :
    (Vault.sealGroup crypto ⟨d, master⟩ group >>= k).Safe R guar post h disk := by
  induction group generalizing h disk k with
  | nil =>
    apply hk _ _ _ hhas
    intro rows hrows
    cases hrows
    exact nofun
  | cons entry group ih =>
    obtain ⟨key, plaintext⟩ := entry
    rw [Vault.sealGroup, Prog.bind_assoc]
    apply hold.sealValue hhas
    intro r h₁ disk₁ hhas₁ hr
    cases r with
    | error e => exact hk _ _ _ hhas₁ nofun
    | ok raw =>
      dsimp only
      rw [Prog.bind_assoc]
      apply ih hhas₁
      intro r' h₂ disk₂ hhas₂ hr'
      cases r' with
      | error e => exact hk _ _ _ hhas₂ nofun
      | ok rows =>
        apply hk _ _ _ hhas₂
        intro rows' hrows'
        cases hrows'
        intro row hrow
        rcases List.mem_cons.1 hrow with rfl | hrow
        · exact (hr raw rfl).sealedUnder (rowKey_ne_marker key)
        · exact hr' rows rfl row hrow

theorem Hold.putGroup (hold : Hold R guar t d F allowed)
    (hwrite : MayWrite crypto master guar d allowed) {group : List (RowKey × Bytes)}
    {k : Except ValErr Unit → M α} (hhas : Has F t d db disk) (hdb : Encrypted crypto master db)
    (hk : ∀ r db' h' disk', Has F t d db' disk' → Encrypted crypto master db' →
      (k r).Safe R guar post h' disk') :
    (Vault.putGroup crypto ⟨d, master⟩ group >>= k).Safe R guar post h disk := by
  rw [Vault.putGroup, Prog.bind_assoc]
  apply hold.sealGroup hhas
  intro r h₁ disk₁ hhas₁ hr
  cases r with
  | error e => exact hk _ _ _ _ hhas₁ hdb
  | ok rows =>
    have hrows : ∀ row ∈ rows.map fun row => (⟨row.1, row.2⟩ : (_ : Bytes) × Bytes),
        SealedUnder crypto master row.1 row.2 := by
      intro row hrow
      obtain ⟨row', hrow', rfl⟩ := List.mem_map.1 hrow
      exact hr rows rfl row' hrow'
    have hput := hdb.foldl_put hrows
    have hcommit := hdb.commit hrows
    dsimp only
    rw [Prog.bind_assoc]
    apply hold.writeBatch hhas₁ (fun x => hwrite.guar _ _) (hwrite.allowed _ _ hdb hput)
      (hwrite.allowed _ _ hdb hcommit)
    intro x db' h₂ disk₂ hhas₂ hwrote
    have hdb' := hwrote.encrypted hdb hput hcommit
    cases x with
    | error e => exact hk _ _ _ _ hhas₂ hdb'
    | ok u => exact hk _ _ _ _ hhas₂ hdb'

/-- Whatever is written through an open store, it stays encrypted. -/
theorem Hold.applyWrites (hold : Hold R guar t d F allowed)
    (hwrite : MayWrite crypto master guar d allowed) (hhas : Has F t d db disk)
    (hdb : Encrypted crypto master db)
    (hk : ∀ db' h' disk', Has F t d db' disk' → Encrypted crypto master db' →
      (k ()).Safe R guar post h' disk') :
    (Vault.applyWrites crypto ⟨d, master⟩ writes >>= k).Safe R guar post h disk := by
  induction writes generalizing h disk db with
  | nil => exact hk _ _ _ hhas hdb
  | cons write writes ih =>
    cases write with
    | put key plaintext sync =>
      rw [Vault.applyWrites, Prog.bind_assoc]
      exact hold.putVal hwrite hhas hdb fun r db' h' disk' hhas' hdb' => ih hhas' hdb'
    | group rows =>
      rw [Vault.applyWrites, Prog.bind_assoc]
      exact hold.putGroup hwrite hhas hdb fun r db' h' disk' hhas' hdb' => ih hhas' hdb'

end Sealing

section Copying
variable {α : Type} {crypto : StoreCrypto} {R : Setting FileSig Disk Chance}
variable {guar : List Event → Event → Prop} {t d : Nat} {F : Disk → Prop}
variable {allowed : Database → Database → Prop}
variable {post : List Event → Disk → α → Prop} {h : List Event} {disk : Disk} {db : Database}
variable {master : H256} {rows : List (Bytes × Bytes)}

theorem Hold.rawPutSealed (hold : Hold R guar t d F allowed)
    (hwrite : MayWrite crypto master guar d allowed) {key plaintext : Bytes}
    (hkey : key ≠ encMarkerKey) {k : Except StoreError Unit → M α} (hhas : Has F t d db disk)
    (hdb : Encrypted crypto master db)
    (hk : ∀ r db' h' disk', Has F t d db' disk' → Encrypted crypto master db' →
      (∀ other, other ≠ key → db'.get other = db.get other) → (k r).Safe R guar post h' disk') :
    (Vault.rawPutSealed crypto ⟨d, master⟩ key plaintext >>= k).Safe R guar post h disk := by
  rw [Vault.rawPutSealed, Prog.bind_assoc]
  apply hold.sealValue hhas
  intro r h₁ disk₁ hhas₁ hr
  cases r with
  | error e => exact hk _ _ _ _ hhas₁ hdb fun _ _ => rfl
  | ok raw =>
    have hsealed := (hr raw rfl).sealedUnder hkey
    have hput := hdb.put hsealed
    have hcommit : Encrypted crypto master (db.commit [⟨key, raw⟩]) :=
      hdb.commit (by simpa using hsealed)
    have hothers : ∀ other, other ≠ key → (db.put ⟨key, raw⟩).get other = db.get other :=
      fun other hne => DurableStore.get_put_ne db hne
    dsimp only
    rw [Prog.bind_assoc]
    apply hold.put hhas₁ (fun x => hwrite.guar _ _) (hwrite.allowed _ _ hdb hput)
      (hwrite.allowed _ _ hdb hcommit)
    intro x db' h₂ disk₂ hhas₂ hwrote
    cases hwrote with
    | ok => exact hk _ _ _ _ hhas₂ hput hothers
    | lost msg => exact hk _ _ _ _ hhas₂ hdb fun _ _ => rfl
    | kept msg => exact hk _ _ _ _ hhas₂ hput hothers

/-- Rows that are no marker. -/
def Unmarked (rows : List (Bytes × Bytes)) : Prop := ∀ row ∈ rows, row.1 ≠ encMarkerKey

theorem Hold.copyRows (hold : Hold R guar t d F allowed)
    (hwrite : MayWrite crypto master guar d allowed) (hrows : Unmarked rows)
    {k : Except MigrateError Unit → M α} (hhas : Has F t d db disk)
    (hdb : Encrypted crypto master db)
    (hk : ∀ r db' h' disk', Has F t d db' disk' → Encrypted crypto master db' →
      (∀ key, key ∉ rows.map Prod.fst → db'.get key = db.get key) →
        (k r).Safe R guar post h' disk') :
    (Vault.copyRows crypto ⟨d, master⟩ rows >>= k).Safe R guar post h disk := by
  induction rows generalizing h disk db with
  | nil => exact hk _ _ _ _ hhas hdb fun _ _ => rfl
  | cons row rows ih =>
    obtain ⟨key, value⟩ := row
    have hrest : Unmarked rows := fun r hr => hrows r (List.mem_cons_of_mem _ hr)
    rw [Vault.copyRows, Prog.bind_assoc]
    apply hold.rawPutSealed hwrite (hrows _ List.mem_cons_self) hhas hdb
    intro r db₁ h₁ disk₁ hhas₁ hdb₁ hothers
    have hfirst : ∀ other, other ∉ ((key, value) :: rows).map Prod.fst →
        db₁.get other = db.get other := by
      intro other hother
      apply hothers
      rintro rfl
      exact hother List.mem_cons_self
    cases r with
    | error e => exact hk _ _ _ _ hhas₁ hdb₁ hfirst
    | ok u =>
      apply ih hrest hhas₁ hdb₁
      intro r' db' h' disk' hhas' hdb' hothers'
      apply hk _ _ _ _ hhas' hdb'
      intro other hother
      rw [hothers' other fun hmem => hother (List.mem_cons_of_mem _ hmem)]
      exact hfirst other hother

theorem Hold.rawGetUnsealed (hold : Hold R guar t d F allowed) {key : Bytes}
    {k : Except StoreError (Option Bytes) → M α} (hhas : Has F t d db disk)
    (hk : ∀ r h' disk', Has F t d db disk' →
      (∀ value, r = .ok (some value) → ∃ raw, db.get key = some raw ∧
        openValue crypto master key raw = .ok value) → (k r).Safe R guar post h' disk') :
    (Vault.rawGetUnsealed crypto ⟨d, master⟩ key >>= k).Safe R guar post h disk := by
  rw [Vault.rawGetUnsealed, Prog.bind_assoc]
  apply hold.get hhas
  intro x h₁ disk₁ hhas₁ hx
  rcases hx with rfl | ⟨msg, rfl⟩
  · cases hraw : db.get key with
    | none => exact hk _ _ _ hhas₁ nofun
    | some raw =>
      dsimp only
      cases hopen : openValue crypto master key raw with
      | error e => exact hk _ _ _ hhas₁ nofun
      | ok pt =>
        apply hk _ _ _ hhas₁
        intro value hvalue
        cases hvalue
        exact ⟨raw, hraw, hopen⟩
  · exact hk _ _ _ hhas₁ nofun

/-- The rows open to their values. -/
def Opens (crypto : StoreCrypto) (master : H256) (rows : List (Bytes × Bytes))
    (db : Database) : Prop :=
  ∀ row ∈ rows, ∃ raw, db.get row.1 = some raw ∧ openValue crypto master row.1 raw = .ok row.2

theorem Hold.verifyRows (hold : Hold R guar t d F allowed)
    {k : Except MigrateError Unit → M α} (hhas : Has F t d db disk)
    (hk : ∀ r h' disk', Has F t d db disk' → (r = .ok () → Opens crypto master rows db) →
      (k r).Safe R guar post h' disk') :
    (Vault.verifyRows crypto ⟨d, master⟩ rows >>= k).Safe R guar post h disk := by
  induction rows generalizing h disk with
  | nil => exact hk _ _ _ hhas fun _ => nofun
  | cons row rows ih =>
    obtain ⟨key, value⟩ := row
    rw [Vault.verifyRows, Prog.bind_assoc]
    apply hold.rawGetUnsealed hhas
    intro r h₁ disk₁ hhas₁ hr
    cases r with
    | error e => exact hk _ _ _ hhas₁ nofun
    | ok got =>
      dsimp only
      split
      · exact hk _ _ _ hhas₁ nofun
      · rename_i hgot
        apply ih hhas₁
        intro r' h' disk' hhas' hopens
        apply hk _ _ _ hhas'
        intro hok row hrow
        rcases List.mem_cons.1 hrow with rfl | hrow
        · exact hr value (congrArg Except.ok (not_not.1 hgot))
        · exact hopens hok row hrow

/-- A staging store that was filled: all its rows are durable and open to the rows copied. -/
structure Filled (crypto : StoreCrypto) (master : H256) (rows : List (Bytes × Bytes))
    (db db' : Database) : Prop where
  others : ∀ key, key ∉ rows.map Prod.fst → db'.get key = db.get key
  opens : Opens crypto master rows db'
  durable : db'.pending = []

theorem Hold.fillStaging (hold : Hold R guar t d F allowed)
    (hwrite : MayWrite crypto master guar d allowed) (hrows : Unmarked rows)
    {k : Except MigrateError Unit → M α} (hhas : Has F t d db disk)
    (hdb : Encrypted crypto master db)
    (hk : ∀ r db' h' disk', Has F t d db' disk' → Encrypted crypto master db' →
      (r = .ok () → Filled crypto master rows db db') → (k r).Safe R guar post h' disk') :
    (Vault.fillStaging crypto ⟨d, master⟩ rows >>= k).Safe R guar post h disk := by
  rw [Vault.fillStaging, Prog.bind_assoc]
  apply hold.copyRows hwrite hrows hhas hdb
  intro r db₁ h₁ disk₁ hhas₁ hdb₁ hothers
  cases r with
  | error e => exact hk _ _ _ _ hhas₁ hdb₁ nofun
  | ok u =>
    dsimp only
    rw [Prog.bind_assoc]
    apply hold.verifyRows hhas₁
    intro r₂ h₂ disk₂ hhas₂ hopens
    cases r₂ with
    | error e => exact hk _ _ _ _ hhas₂ hdb₁ nofun
    | ok u =>
      have hreplay : Encrypted crypto master (db₁.commit []) := hdb₁.commit (by simp)
      dsimp only
      rw [Prog.bind_assoc, Vault.flushStore, Prog.bind_assoc]
      apply hold.flush hhas₂ (hwrite.allowed _ _ hdb₁ hdb₁) (hwrite.allowed _ _ hdb₁ hreplay)
      intro x db' h₃ disk₃ hhas₃ hwrote
      cases hwrote with
      | ok =>
        apply hk _ _ _ _ hhas₃ hreplay
        intro _
        constructor
        · intro key hkey
          rw [get_commit_nil]
          exact hothers key hkey
        · intro row hrow
          rw [get_commit_nil]
          exact hopens rfl row hrow
        · rfl
      | lost msg => exact hk _ _ _ _ hhas₃ hdb₁ nofun
      | kept msg => exact hk _ _ _ _ hhas₃ hdb₁ nofun

end Copying
end Gateway.Vault
