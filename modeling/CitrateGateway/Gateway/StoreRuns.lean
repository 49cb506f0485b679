import CitrateGateway.Gateway.Migrate

/-!
# Stores that never mix

Processes open stores under any keys, write through them and migrate them, side by side and each
cut off anywhere. Every database stays one of three: empty, the plaintext rows of the legacy store
it began as, or sealed throughout under the key of its marker.
-/

namespace Gateway.Vault
set_option autoImplicit false
open Words Effects Durable Files
open Effects.System (trace Transition Sharing)

section Machine

inductive Job where
  | serve (path : String) (master : H256) (writes : List Write)
  | migrate (path : String) (master : Option H256) (dryRun : Bool)

inductive Outcome where
  | served (r : Except StoreError Unit)
  | migrated (r : Except MigrateError MigrateReport)

variable (crypto : StoreCrypto)

def Job.prog : Job → M Outcome
  | .serve path master writes => do return .served (← Vault.serve crypto path master writes)
  | .migrate path master dryRun => do return .migrated (← migrateEncrypt crypto path master dryRun)

/-- A process can be killed between any two operations; a power failure stops all of them. -/
abbrev stores : System FileSig where
  Shared := Disk
  Job := Job
  Res := Outcome
  Input := Chance
  World := Nat → List Bool
  prog := Job.prog crypto
  onStart := fun disk _ => some disk
  handle := fun disk t o c => perform t disk o c
  leave := fun disk t => disk.leave t
  spawn := fun _ => none
  world := fun disk masks => some (disk.crash masks)
  halts := fun _ => true

abbrev Run (start : Disk) (s : (stores crypto).State) : Prop :=
  System.Reach (stores crypto) (fun _ _ => True) ((stores crypto).init start) s

end Machine

section Databases
variable (crypto : StoreCrypto)

/-- The store wrote the value at the key under the master key; at the key of the marker it writes
the plaintext of the marker only. -/
def SealedUnder (master : H256) (key value : Bytes) : Prop :=
  ∃ nonce plaintext, sealWith crypto master nonce key plaintext = .ok value ∧
    (key = encMarkerKey → plaintext = encMarkerPlaintext)

/-- What a database may hold; `old` is the plaintext store that its directory began with. -/
inductive Unmixed (old : Option Database) (db : Database) : Prop
  | empty (h : ∀ key, db.get key = none)
  | plaintext (legacy : Database) (hold : old = some legacy) (hmarker : db.get encMarkerKey = none)
    (h : ∀ key value, db.get key = some value → ⟨key, value⟩ ∈ legacy.pending ++ legacy.durable)
  | encrypted (master : H256) (hmarker : (db.get encMarkerKey).isSome = true)
    (h : ∀ key value, db.get key = some value → SealedUnder crypto master key value)

/-- The marker is durable, and all that was written is sealed. -/
structure Encrypted (master : H256) (db : Database) : Prop where
  marker : (db.durable.dlookup encMarkerKey).isSome = true
  rows : db.All (SealedUnder crypto master)

/-- The invariant of one database. A marker that is not durable yet is alone. -/
inductive Intact (old : Option Database) (db : Database) : Prop
  | marking (master : H256)
    (h : db.All fun key value => key = encMarkerKey ∧ SealedUnder crypto master key value)
  | plaintext (legacy : Database) (hold : old = some legacy)
    (h : db.All fun key value => ⟨key, value⟩ ∈ legacy.pending ++ legacy.durable)
  | encrypted (master : H256) (h : Encrypted crypto master db)

/-- No database has a marker. -/
def Legacy (disk : Disk) : Prop :=
  ∀ (d : Nat) (dir : Dir) (db : Database), disk.dirs[d]? = some dir → dir.base = some db →
    db.All fun key _ => key ≠ encMarkerKey

def Disk.old (start : Disk) (d : Nat) : Option Database := start.dirs[d]?.bind Dir.base

def Clean (start disk : Disk) : Prop :=
  ∀ (d : Nat) (dir : Dir) (db : Database), disk.dirs[d]? = some dir → dir.base = some db →
    Intact crypto (Disk.old start d) db

end Databases

section Rows
variable {crypto : StoreCrypto} {master : H256} {db : Database} {old : Option Database}

theorem All.foldl_put {P : Bytes → Bytes → Prop} {rows : List ((_ : Bytes) × Bytes)}
    (h : db.All P) (hrows : ∀ row ∈ rows, P row.1 row.2) :
    (rows.foldl DurableStore.put db).All P := by
  induction rows generalizing db with
  | nil => exact h
  | cons row rows ih =>
    exact ih (h.put (hrows row List.mem_cons_self)) fun r hr => hrows r (List.mem_cons_of_mem _ hr)

theorem durable_foldl_put (rows : List ((_ : Bytes) × Bytes)) (db : Database) :
    (rows.foldl DurableStore.put db).durable = db.durable := by
  induction rows generalizing db with
  | nil => rfl
  | cons row rows ih => exact ih (db.put row)

theorem Encrypted.put (h : Encrypted crypto master db) {key value : Bytes}
    (hsealed : SealedUnder crypto master key value) :
    Encrypted crypto master (db.put ⟨key, value⟩) where
  marker := h.marker
  rows := h.rows.put hsealed

theorem Encrypted.foldl_put (h : Encrypted crypto master db) {rows : List ((_ : Bytes) × Bytes)}
    (hrows : ∀ row ∈ rows, SealedUnder crypto master row.1 row.2) :
    Encrypted crypto master (rows.foldl .put db) where
  marker := by
    rw [durable_foldl_put]
    exact h.marker
  rows := All.foldl_put h.rows hrows

theorem Encrypted.commit (h : Encrypted crypto master db) {rows : List ((_ : Bytes) × Bytes)}
    (hrows : ∀ row ∈ rows, SealedUnder crypto master row.1 row.2) :
    Encrypted crypto master (db.commit rows) where
  marker := DurableStore.isSome_durable_commit rows h.marker
  rows := h.rows.commit hrows

theorem Encrypted.crash (h : Encrypted crypto master db) (mask : List Bool) :
    Encrypted crypto master (db.crash mask) where
  marker := by
    rw [DurableStore.crash, List.dlookup_append, Option.isSome_or, h.marker, Bool.or_true]
  rows := h.rows.crash mask

theorem get_commit_nil (db : Database) (key : Bytes) : (db.commit []).get key = db.get key :=
  DurableStore.get_commit_ne db List.not_mem_nil

/-- A database without rows has nothing written. -/
theorem all_of_rowsOf_nil (h : rowsOf db = []) (P : Bytes → Bytes → Prop) : db.All P := by
  have hrows : db.rows = [] := by
    have hlen := congrArg List.length h
    rw [rowsOf, List.length_insertionSort, List.length_map, List.length_nil] at hlen
    exact List.length_eq_zero_iff.1 hlen
  intro row hrow
  have hsome : (db.get row.1).isSome = true := List.dlookup_isSome.2 (List.mem_keys_of_mem hrow)
  obtain ⟨v, hv⟩ := Option.isSome_iff_exists.1 hsome
  have hmem := DurableStore.mem_rows.2 hv
  rw [hrows] at hmem
  cases hmem

theorem Intact.commit_nil (h : Intact crypto old db) : Intact crypto old (db.commit []) := by
  cases h with
  | marking master h => exact .marking master (h.commit (by simp))
  | plaintext legacy hold h => exact .plaintext legacy hold (h.commit (by simp))
  | encrypted master h => exact .encrypted master (h.commit (by simp))

theorem Intact.crash (h : Intact crypto old db) (mask : List Bool) :
    Intact crypto old (db.crash mask) := by
  cases h with
  | marking master h => exact .marking master (h.crash mask)
  | plaintext legacy hold h => exact .plaintext legacy hold (h.crash mask)
  | encrypted master h => exact .encrypted master (h.crash mask)

end Rows

section Invariant
variable {crypto : StoreCrypto} {start disk disk' : Disk} {t d : Nat} {dir : Dir} {db : Database}

theorem intact_empty (old : Option Database) : Intact crypto old .empty :=
  .marking 0 fun row hrow => by cases hrow

theorem Clean.setDir (h : Clean crypto start disk)
    (hdir : ∀ db, dir.base = some db → Intact crypto (Disk.old start d) db) :
    Clean crypto start (disk.setDir d dir) := by
  intro e dir' db hget hbase
  by_cases hde : d = e
  · subst hde
    have hlt := lt_of_dir hget
    rw [Disk.setDir, List.length_set] at hlt
    rw [dirs_setDir_self hlt] at hget
    cases hget
    exact hdir db hbase
  · rw [dirs_setDir_ne hde] at hget
    exact h e dir' db hget hbase

theorem Clean.newDir (h : Clean crypto start disk) (path : String)
    (hdir : ∀ db, dir.base = some db → db = .empty) :
    Clean crypto start (disk.newDir path dir) := by
  intro e dir' db hget hbase
  by_cases hlt : e < disk.dirs.length
  · rw [dirs_newDir hlt] at hget
    exact h e dir' db hget hbase
  · rw [Disk.newDir, List.getElem?_append_right (Nat.not_lt.1 hlt)] at hget
    cases List.mem_singleton.1 (List.mem_of_getElem? hget)
    rw [hdir db hbase]
    exact intact_empty _

theorem Clean.opened (h : Clean crypto start disk) (hopen : disk.opened t d = some db) :
    Intact crypto (Disk.old start d) db :=
  h d _ db (opened_eq_some.1 hopen) rfl

theorem Clean.openDb (h : Clean crypto start disk) {path : String} {createIfMissing : Bool}
    {x : Except String Nat} (hopening : Opening t disk path createIfMissing x disk') :
    Clean crypto start disk' := by
  cases hopening with
  | failed msg => exact h
  | began msg hcreate hname => exact h.newDir path fun db hbase => by cases hbase
  | created hcreate hname =>
    refine h.newDir path fun db hbase => ?_
    cases hbase
    rfl
  | found d db hname hdir =>
    refine h.setDir fun db' hbase => ?_
    cases hbase
    exact (h d _ db hdir rfl).commit_nil
  | filled d hcreate hname hdir =>
    refine h.setDir fun db' hbase => ?_
    cases hbase
    exact intact_empty _

/-- Operations that write no rows keep the databases intact. -/
theorem Clean.perform (h : Clean crypto start disk) {o : Files.Op} {c : Chance} {x : o.Ans}
    (hstep : Files.perform t disk o c = some (x, disk')) (hput : o.isPut = false) :
    Clean crypto start disk' := by
  cases o with
  | pathExists path => cases hstep; exact h
  | openDb path createIfMissing => exact h.openDb (perform_openDb hstep)
  | get d key =>
    obtain ⟨rfl, -⟩ := perform_get hstep
    exact h
  | iterator d =>
    obtain ⟨rfl, -⟩ := perform_iterator hstep
    exact h
  | put d key value sync => cases hput
  | writeBatch d group => cases hput
  | flush d =>
    obtain ⟨db, hopen, ⟨-, rfl⟩ | ⟨msg, -, rfl | rfl⟩⟩ := perform_flush hstep
    · refine h.setDir fun db' hbase => ?_
      cases hbase
      exact (h.opened hopen).commit_nil
    · exact h
    · refine h.setDir fun db' hbase => ?_
      cases hbase
      exact h.opened hopen
  | close d =>
    obtain ⟨db, hopen, rfl⟩ := perform_close hstep
    refine h.setDir fun db' hbase => ?_
    cases hbase
    exact h.opened hopen
  | getrandom => cases hstep; exact h
  | removeEntries path =>
    rcases perform_removeEntries hstep with rfl | rfl
    · exact h
    · exact h.newDir path fun db hbase => by cases hbase
  | removeDir path =>
    rcases perform_removeDir hstep with ⟨-, rfl⟩ | ⟨msg, -, rfl⟩
    · exact h
    · exact h
  | rename «from» «to» =>
    rcases perform_rename hstep with ⟨d, -, -, rfl⟩ | ⟨msg, -, rfl⟩
    · exact h
    · exact h
  | timestamp => cases hstep; exact h

theorem Clean.leave (h : Clean crypto start disk) (t : Nat) :
    Clean crypto start (disk.leave t) := by
  intro e dir' db hget hbase
  simp only [Disk.leave, List.getElem?_map, Option.map_eq_some_iff] at hget
  obtain ⟨dir, hdir, rfl⟩ := hget
  refine h e dir db hdir ?_
  rw [← hbase]
  split <;> rfl

theorem Clean.crash (h : Clean crypto start disk) (masks : Nat → List Bool) :
    Clean crypto start (disk.crash masks) := by
  intro e dir' db hget hbase
  simp only [Disk.crash, List.getElem?_mapIdx, Option.map_eq_some_iff] at hget
  obtain ⟨dir, hdir, rfl⟩ := hget
  obtain ⟨db₀, hdb₀, rfl⟩ := Option.map_eq_some_iff.1 hbase
  exact (h e dir db₀ hdir hdb₀).crash _

/-- Who has a database open is not disturbed, and the databases stay intact. -/
def sharing (crypto : StoreCrypto) (start : Disk) : Sharing (stores crypto) where
  rely := Undisturbed
  inv := Clean crypto start
  refl := Undisturbed.refl
  trans := fun _ _ _ _ => Undisturbed.trans
  handle := fun _ _ _ _ _ _ _ hne hstep => perform_undisturbed hne hstep
  leave := fun _ _ _ hne => undisturbed_leave hne
  leave_inv := fun t _ h => h.leave t
  start := fun t sh _ _ h => by
    cases h
    exact .refl t sh
  start_inv := fun _ _ _ hinv h => by
    cases h
    exact hinv
  world := fun _ _ _ _ _ h => by cases h
  world_inv := fun _ masks _ hinv h => by
    cases h
    exact hinv.crash masks

end Invariant
end Gateway.Vault
