import CitrateGateway.Gateway.MigrationSteps

/-!
# A migration loses no row

What a run of the migration comes to, and what is found in the store afterwards, by the gateway
and by a second run.
-/

namespace Gateway.Vault
set_option autoImplicit false
open Words Effects Durable Files

section Copies
variable {crypto : StoreCrypto} {path : String} {master : H256} {source copy db : Database}
variable {e t : Nat} {disk disk' : Disk}

/-- What comes of opening a database that has a marker or rows; no marker is made. -/
inductive Opened (crypto : StoreCrypto) (master : H256) (t d : Nat) (db : Database) (disk : Disk) :
    Except StoreError Store → Prop
  | failed (msg : String) : Opened crypto master t d db disk (.error (.rocks msg))
  | wrongKey (raw : Bytes) (hraw : db.get encMarkerKey = some raw)
    (hopens : markerOpens crypto master raw = false) :
    Opened crypto master t d db disk (.error .wrongKey)
  | plaintext (hnone : db.get encMarkerKey = none) :
    Opened crypto master t d db disk (.error .plaintextStore)
  | ok (raw : Bytes) (hraw : db.get encMarkerKey = some raw)
    (hopens : markerOpens crypto master raw = true)
    (hopen : disk.opened t d = some (db.commit [])) :
    Opened crypto master t d db disk (.ok ⟨d, master⟩)

theorem safe_open {d : Nat} {holder : Option Nat} {h : List Event}
    (hname : disk.names path = some d) (hdir : disk.dirs[d]? = some ⟨some db, holder⟩)
    (hused : db.get encMarkerKey ≠ none ∨ rowsOf db ≠ []) :
    (openStore crypto path master).Safe (alone t fun _ => True) (fun _ _ => True)
      (fun _ disk' r => Opened crypto master t d db disk' r) h disk := by
  have hold : Hold (alone t fun _ => True) (fun _ _ => True) t d (fun _ => True) fun _ _ => True :=
    hold_alone (fun _ _ _ => trivial) fun _ _ _ _ _ _ _ _ => trivial
  have hreplayed : Replayed db (db.commit []) := .inr rfl
  rw [openStore, openDb]
  apply safe_alone (isSome_openDb disk t path true)
  intro x c disk₁ hstep
  refine ⟨trivial, ?_⟩
  cases perform_openDb hstep with
  | failed msg => exact .failed msg
  | began msg hcreate hname' => exact .failed msg
  | created hcreate hname' =>
    rw [hname] at hname'
    cases hname'
  | filled d hcreate hname' hdir' =>
    rw [hname] at hname'
    cases hname'
    rw [hdir] at hdir'
    cases hdir'
  | found d db hname' hdir' =>
    rw [hname] at hname'
    cases hname'
    rw [hdir] at hdir'
    cases hdir'
    have hopen : (disk.write t d (db.commit [])).opened t d = some (db.commit []) :=
      opened_eq_some.2 (dirs_setDir_self (lt_of_dir hdir))
    apply hold.checkOrInitEncMarker ⟨trivial, hopen⟩ fun _ _ _ _ =>
      ⟨fun _ _ => trivial, trivial, trivial⟩
    intro r db' h₂ disk₂ hhas₂ hchecked
    have hempty : (db.commit []).get encMarkerKey = none → rowsOf (db.commit []) = [] → False := by
      intro hnone hrows
      rw [hreplayed.get] at hnone
      rw [hreplayed.rowsOf] at hrows
      rcases hused with hmarker | hne
      · exact hmarker hnone
      · exact hne hrows
    cases hchecked with
    | found raw hraw hopens => exact .ok raw (hreplayed.get _ ▸ hraw) hopens hhas₂.2
    | unread msg =>
      apply hold.close hhas₂ trivial
      exact fun h₃ disk₃ _ _ => .failed msg
    | wrongKey raw hraw hopens =>
      apply hold.close hhas₂ trivial
      exact fun h₃ disk₃ _ _ => .wrongKey raw (hreplayed.get _ ▸ hraw) hopens
    | plaintext hnone =>
      apply hold.close hhas₂ trivial
      exact fun h₃ disk₃ _ _ => .plaintext (hreplayed.get _ ▸ hnone)
    | notSealed e' hnone hrows => exact (hempty hnone hrows).elim
    | marked raw hnone hrows => exact (hempty hnone hrows).elim
    | failed msg raw hnone hrows => exact (hempty hnone hrows).elim

theorem CopyAt.opened (h : CopyAt crypto path master source e copy disk) (t : Nat) :
    (disk.write t e copy).opened t e = some copy := by
  rw [opened_eq_some]
  exact dirs_setDir_self (lt_of_dir h.base)

/-- What comes of opening the result of a migration under its key. -/
def Reopened (master : H256) (t e : Nat) (copy : Database) (disk' : Disk)
    (r : Except StoreError Store) : Prop :=
  r = .ok ⟨e, master⟩ ∧ disk'.opened t e = some copy

theorem safe_reopen (htrip : RoundTrip crypto) (h : CopyAt crypto path master source e copy disk) :
    (openStore crypto path master).Safe (alone t fun _ => True) (fun _ _ => True)
      (fun _ disk' r => Reopened master t e copy disk' r ∨ ∃ msg, r = .error (.rocks msg)) [] disk := by
  obtain ⟨raw, hraw, hsealed⟩ := h.migrated.marker
  have hused : copy.get encMarkerKey ≠ none ∨ rowsOf copy ≠ [] := .inl (by rw [hraw]; simp)
  apply (safe_open h.name h.base hused).mono
  intro h' disk' r hr
  cases hr with
  | failed msg => exact .inr ⟨msg, rfl⟩
  | wrongKey raw' hraw' hopens =>
    rw [hraw] at hraw'
    cases hraw'
    rw [markerOpens_of_sealed htrip hsealed] at hopens
    cases hopens
  | plaintext hnone =>
    rw [hraw] at hnone
    cases hnone
  | ok raw' hraw' hopens hopen =>
    rw [commit_nil_of_durable h.migrated.durable] at hopen
    exact .inl ⟨rfl, hopen⟩

/-- The report of a run that finds its store encrypted. -/
def nothingToDo (dryRun : Bool) : MigrateReport := ⟨.alreadyEncrypted, 0, [], dryRun, none⟩

/-- The second run is under the same key, or it is dry and without one. -/
def SameKey (master : H256) (key : Option H256) (dryRun : Bool) : Prop :=
  key = some master ∨ key = none ∧ dryRun = true

theorem alreadyEncrypted_eq (htrip : RoundTrip crypto) {key : Option H256} {dryRun : Bool}
    (hkey : SameKey master key dryRun) {raw : Bytes}
    (hsealed : Sealed crypto master encMarkerKey encMarkerPlaintext raw) :
    alreadyEncrypted crypto key dryRun raw = .ok (nothingToDo dryRun) := by
  rcases hkey with rfl | ⟨rfl, -⟩
  · rw [alreadyEncrypted, Option.all_some, if_pos (markerOpens_of_sealed htrip hsealed)]
    rfl
  · rfl

theorem safe_rerun (htrip : RoundTrip crypto) (h : CopyAt crypto path master source e copy disk)
    {key : Option H256} {dryRun : Bool} (hkey : SameKey master key dryRun) :
    (migrateEncrypt crypto path key dryRun).Safe (alone t (Untouched disk e copy))
      (fun _ _ => True)
      (fun _ _ r => r = .ok (nothingToDo dryRun) ∨ ∃ msg, r = .error (.db msg)) [] disk := by
  obtain ⟨raw, hraw, hsealed⟩ := h.migrated.marker
  have hstart := untouched_start h.base
  apply safe_migrateEncrypt h.name h.base hstart
  · intro h' hnone hreal
    rcases hkey with hsome | ⟨-, hdry⟩
    · rw [hnone] at hsome
      cases hsome
    · rw [hreal] at hdry
      cases hdry
  · exact fun msg h' => .inr ⟨msg, rfl⟩
  · intro h'
    refine ⟨hstart.setDir (.inr rfl) _, ?_⟩
    rw [migrateOpened]
    rw [commit_nil_of_durable h.migrated.durable]
    apply hold_untouched.get ⟨trivial, h.opened t⟩
    intro x h₁ disk₁ hhas₁ hx
    have hsame : Replayed copy copy := .inl rfl
    rcases hx with rfl | ⟨msg, rfl⟩
    · rw [hraw]
      apply hold_untouched.close hhas₁ hsame
      exact fun h₂ disk₂ _ _ => .inl (alreadyEncrypted_eq htrip hkey hsealed)
    · apply hold_untouched.close hhas₁ hsame
      exact fun h₂ disk₂ _ _ => .inr ⟨msg, rfl⟩

end Copies

section Quiet
variable {crypto : StoreCrypto} {path : String} {master : H256} {source copy : Database}
variable {e t : Nat} {disk disk' : Disk}

/-- An environment in which no operation fails. -/
def quiet (t : Nat) (disk : Disk) (o : Files.Op) (c : Chance) : Option (o.Ans × Disk) :=
  perform t disk o { c with fault := false }

theorem quiet_openDb (h : CopyAt crypto path master source e copy disk) (createIfMissing : Bool)
    (c : Chance) :
    quiet t disk (.openDb path createIfMissing) c = some (.ok e, disk.write t e copy) := by
  simp [quiet, perform, openAt, h.name, h.base, commit_nil_of_durable h.migrated.durable]

theorem quiet_get {d : Nat} {db : Database} (hopen : disk.opened t d = some db) (key : Bytes)
    (c : Chance) : quiet t disk (.get d key) c = some (.ok (db.get key), disk) := by
  simp [quiet, perform, hopen]

theorem quiet_close {d : Nat} {db : Database} (hopen : disk.opened t d = some db) (c : Chance) :
    quiet t disk (.close d) c = some ((), disk.setDir d ⟨some db, none⟩) := by
  simp [quiet, perform, hopen]

/-- Closing what was opened leaves the disk as it was. -/
theorem CopyAt.closed (h : CopyAt crypto path master source e copy disk) (t : Nat) :
    (disk.write t e copy).setDir e ⟨some copy, none⟩ = disk := by
  obtain ⟨hlt, hget⟩ := List.getElem?_eq_some_iff.1 h.base
  obtain ⟨names, dirs⟩ := disk
  rw [Disk.write, Disk.setDir, Disk.setDir]
  congr 1
  rw [List.set_set, ← hget, List.set_getElem_self]

theorem exec_of_step {α : Type} {o : Files.Op} {k : o.Ans → M α} {x : o.Ans} {disk₁ : Disk} {a : α}
    (hstep : ∀ c, quiet t disk o c = some (x, disk₁)) :
    (.perform (E := FileSig) o >>= k : M α).Exec (quiet t) disk a disk' ↔
      (k x).Exec (quiet t) disk₁ a disk' := by
  rw [Prog.exec_perform_bind_iff]
  constructor
  · rintro ⟨c, x', s₁, hx, hrest⟩
    rw [hstep c] at hx
    cases hx
    exact hrest
  · exact fun hrest => ⟨{}, x, disk₁, hstep {}, hrest⟩

/-- Without faults the result of a migration opens. -/
theorem reopen_quiet (htrip : RoundTrip crypto) (h : CopyAt crypto path master source e copy disk)
    (r : Except StoreError Store) :
    (openStore crypto path master).Exec (quiet t) disk r disk' ↔
      r = .ok ⟨e, master⟩ ∧ disk' = disk.write t e copy := by
  obtain ⟨raw, hraw, hsealed⟩ := h.migrated.marker
  have hopens := markerOpens_of_sealed htrip hsealed
  rw [markerOpens] at hopens
  cases hvalue : openValue crypto master encMarkerKey raw with
  | error err =>
    rw [hvalue] at hopens
    cases hopens
  | ok pt =>
    rw [hvalue] at hopens
    have hpt : pt = encMarkerPlaintext := beq_iff_eq.1 hopens
    rw [openStore, openDb, exec_of_step (quiet_openDb h true)]
    dsimp only
    rw [checkOrInitEncMarker, Prog.bind_assoc, Files.get,
      exec_of_step (quiet_get (h.opened t) encMarkerKey), hraw]
    dsimp only
    rw [hvalue]
    dsimp only
    rw [if_neg (not_not.2 hpt)]
    exact Prog.exec_ret_iff

/-- Without faults a second run finds the store encrypted and leaves the disk as it was. -/
theorem rerun_quiet (htrip : RoundTrip crypto) (h : CopyAt crypto path master source e copy disk)
    {key : Option H256} {dryRun : Bool} (hkey : SameKey master key dryRun)
    (r : Except MigrateError MigrateReport) :
    (migrateEncrypt crypto path key dryRun).Exec (quiet t) disk r disk' ↔
      r = .ok (nothingToDo dryRun) ∧ disk' = disk := by
  obtain ⟨raw, hraw, hsealed⟩ := h.migrated.marker
  have hexists : ∀ c, quiet t disk (.pathExists path) c = some (true, disk) := by
    intro c
    simp [quiet, perform, h.name]
  have hgo : ¬ (key.isNone && !dryRun) = true := by
    rcases hkey with rfl | ⟨rfl, rfl⟩
    · simp
    · simp
  rw [migrateEncrypt, pathExists, exec_of_step hexists, if_pos rfl, if_neg hgo, openDb,
    exec_of_step (quiet_openDb h false)]
  dsimp only
  rw [migrateOpened, Files.get, exec_of_step (quiet_get (h.opened t) encMarkerKey), hraw]
  dsimp only
  rw [close, exec_of_step (quiet_close (h.opened t)), h.closed t,
    alreadyEncrypted_eq htrip hkey hsealed]
  exact Prog.exec_ret_iff

end Quiet

section Claim
variable {crypto : StoreCrypto} {path : String} {master : H256} {source copy : Database}
variable {s e t : Nat} {start disk : Disk}

/-- The store at the path opens under the key with the rows of the copy, and a second run finds it
encrypted and writes nothing. -/
structure Serves (crypto : StoreCrypto) (path : String) (master : H256) (e : Nat) (copy : Database)
    (disk : Disk) : Prop where
  reopened : ∀ t r disk', (openStore crypto path master).Exec (perform t) disk r disk' →
    Reopened master t e copy disk' r ∨ ∃ msg, r = .error (.rocks msg)
  reopens : ∀ t r disk', (openStore crypto path master).Exec (quiet t) disk r disk' ↔
    r = .ok ⟨e, master⟩ ∧ disk' = disk.write t e copy
  rerun : ∀ t key dryRun r disk', SameKey master key dryRun →
    (migrateEncrypt crypto path key dryRun).Exec (perform t) disk r disk' →
      Untouched disk e copy disk' ∧
        (r = .ok (nothingToDo dryRun) ∨ ∃ msg, r = .error (.db msg))
  reruns : ∀ t key dryRun r disk', SameKey master key dryRun →
    ((migrateEncrypt crypto path key dryRun).Exec (quiet t) disk r disk' ↔
      r = .ok (nothingToDo dryRun) ∧ disk' = disk)

theorem serves_of_copy (htrip : RoundTrip crypto)
    (h : CopyAt crypto path master source e copy disk) : Serves crypto path master e copy disk := by
  constructor
  · intro t r disk' hexec
    have hexec' : (openStore crypto path master).Exec (alone t fun _ => True).handle disk r disk' :=
      hexec
    obtain ⟨-, h', hpost⟩ := hexec'.post_of_safe (fun _ => rfl) trivial (safe_reopen htrip h)
    exact hpost
  · exact fun t r disk' => reopen_quiet htrip h r
  · intro t key dryRun r disk' hkey hexec
    have hexec' : (migrateEncrypt crypto path key dryRun).Exec (alone t (Untouched disk e copy)).handle
        disk r disk' := hexec
    obtain ⟨huntouched, h', hpost⟩ := hexec'.post_of_safe (fun _ => rfl) (untouched_start h.base)
      (safe_rerun htrip h hkey)
    exact ⟨huntouched, hpost⟩
  · exact fun t key dryRun r disk' hkey => rerun_quiet htrip h hkey r

/-- A real run refuses with the source in its place, stops between the two renames with the source
at the backup, or leaves the sealed copy at the path and the source at the backup. A dry run and a
run that meets an unknown row write nothing. -/
theorem migration_preserves (htrip : RoundTrip crypto) (hplain : PlaintextAt path s source start)
    (master : H256) (t : Nat) :
    (∀ r disk, (migrateEncrypt crypto path (some master) false).Exec (perform t) start r disk →
      Ended crypto path master s source disk r ∧
        ∀ e copy, CopyAt crypto path master source e copy disk →
          Serves crypto path master e copy disk) ∧
    (∀ key r disk, (migrateEncrypt crypto path key true).Exec (perform t) start r disk →
      Untouched start s source disk ∧ ((∃ err, r = .error err) ∨ ∃ counts, Scanned source counts ∧
        r = .ok ⟨.plaintext, (rowsOf source).length, counts, true, none⟩)) ∧
    ∀ key dryRun r disk, (∃ row ∈ rowsOf source, ¬ Known row) →
      (migrateEncrypt crypto path key dryRun).Exec (perform t) start r disk →
        Untouched start s source disk ∧ ∃ err, r = .error err := by
  obtain ⟨holder, hdir⟩ := hplain.base
  have hlook : ∀ key dryRun r disk,
      (dryRun = true ∨ ∃ row ∈ rowsOf source, ¬ Known row) →
      (migrateEncrypt crypto path key dryRun).Exec (perform t) start r disk →
        Untouched start s source disk ∧ ((∃ err, r = .error err) ∨ ∃ counts, Scanned source counts ∧
          r = .ok ⟨.plaintext, (rowsOf source).length, counts, true, none⟩) := by
    intro key dryRun r disk hlook hexec
    have hexec' : (migrateEncrypt crypto path key dryRun).Exec
        (alone t (Untouched start s source)).handle start r disk := hexec
    obtain ⟨huntouched, h', hpost⟩ := hexec'.post_of_safe (h := []) (fun _ => rfl)
      (untouched_start hdir) (safe_untouched hplain hlook)
    exact ⟨huntouched, hpost⟩
  refine ⟨?_, ?_, ?_⟩
  · intro r disk hexec
    have hexec' : (migrateEncrypt crypto path (some master) false).Exec
        (alone t (Stage crypto path master s source)).handle start r disk := hexec
    have hstart : SourceAt path s source start := ⟨hplain.name, source, holder, hdir, .inl rfl⟩
    obtain ⟨-, h', hended⟩ := hexec'.post_of_safe (h := []) (fun _ => rfl) (.source hstart)
      (safe_real hplain)
    exact ⟨hended, fun e copy hcopy => serves_of_copy htrip hcopy⟩
  · exact fun key r disk hexec => hlook key true r disk (.inl rfl) hexec
  · intro key dryRun r disk hunknown hexec
    obtain ⟨huntouched, herror | ⟨counts, hscanned, -⟩⟩ := hlook key dryRun r disk (.inr hunknown) hexec
    · exact ⟨huntouched, herror⟩
    · obtain ⟨row, hrow, hne⟩ := hunknown
      exact absurd (hscanned.1 row hrow) hne

/-- A store with the row that a settled batch leaves. -/
def plainStore : Database := ⟨[⟨utf8 "batchset:1", [1]⟩], []⟩

def plainDisk : Disk := ⟨fun name => if name = "store" then some 0 else none, [⟨some plainStore, none⟩]⟩

def migrationChance : Chance := { random := some nonce₁, stamp := "20260701-000000" }

def migratedReport : MigrateReport :=
  ⟨.plaintext, 1, [("batchset", 1)], false, some "store.pre-encrypt-20260701-000000"⟩

theorem plainDisk_plaintext : PlaintextAt "store" 0 plainStore plainDisk :=
  ⟨rfl, ⟨none, rfl⟩, by decide⟩

theorem migration_preserves_sample : ∃ disk e copy,
    (migrateEncrypt sampleCrypto "store" (some master₁) false).Exec (perform 0) plainDisk
      (.ok migratedReport) disk ∧
    SourceAt "store.pre-encrypt-20260701-000000" 0 plainStore disk ∧
    CopyAt sampleCrypto "store" master₁ plainStore e copy disk ∧
    Serves sampleCrypto "store" master₁ e copy disk := by
  obtain ⟨disk, hdisk⟩ : ∃ disk, Prog.advance? (perform 0) migrationChance 19
      (migrateEncrypt sampleCrypto "store" (some master₁) false) plainDisk =
        some (.ret (.ok migratedReport), disk) := ⟨_, rfl⟩
  have hexec := (Prog.steps_of_advance hdisk).exec rfl
  obtain ⟨hended, hserves⟩ :=
    (migration_preserves sampleCrypto_aead.opens plainDisk_plaintext master₁ 0).1 _ _ hexec
  rw [migratedReport] at hended
  cases hended with
  | migrated counts backup e copy hscanned hbackup hcopy =>
    exact ⟨disk, e, copy, hexec, hbackup, hcopy, hserves e copy hcopy⟩

end Claim
end Gateway.Vault
