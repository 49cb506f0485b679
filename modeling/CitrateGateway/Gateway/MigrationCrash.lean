import CitrateGateway.Gateway.Keyvault
import CitrateGateway.Gateway.MigrationRuns

/-!
# Booting after a migration that crashed

A migration can be cut off after any of its operations. Between the two renames nothing is at the
path of the store, and a boot there makes a new store, without a row. Everywhere else a boot
refuses or has all rows.
-/

namespace Gateway.Vault
set_option autoImplicit false
open Words Effects Durable Files
open Keyvault (Host KeySource OpenStoreError firstBoot)

section Crashes
variable {source db : Database} {disk : Disk} {t d : Nat} {masks : Nat → List Bool}

/-- How a run is cut off. -/
inductive Crash where
  | killed
  | power (masks : Nat → List Bool)

/-- The disk that a crash of a task leaves. -/
def Crash.leaves (t : Nat) (disk : Disk) : Crash → Disk
  | .killed => disk.leave t
  | .power masks => disk.crash masks

/-- The writes of a store that a crash cannot undo. -/
def Crash.spares (source : Database) : Crash → List ((_ : Bytes) × Bytes)
  | .killed => source.pending ++ source.durable
  | .power _ => source.durable

/-- What a crash leaves of a database. -/
def Crash.keeps (d : Nat) (db : Database) : Crash → Database
  | .killed => db
  | .power masks => db.crash (masks d)

theorem Crash.spares_subset (crash : Crash) (source : Database) :
    crash.spares source ⊆ source.pending ++ source.durable := by
  cases crash with
  | killed => exact List.Subset.refl _
  | power masks => exact List.subset_append_right _ _

theorem names_leaves (crash : Crash) (t : Nat) (disk : Disk) :
    (crash.leaves t disk).names = disk.names := by
  cases crash with
  | killed => rfl
  | power masks => rfl

theorem dirs_leaves (crash : Crash) {holder : Option Nat}
    (hdir : disk.dirs[d]? = some ⟨some db, holder⟩) (t : Nat) :
    ∃ holder', (crash.leaves t disk).dirs[d]? = some ⟨some (crash.keeps d db), holder'⟩ ∧
      (holder = none → holder' = none) := by
  cases crash with
  | killed =>
    simp only [Crash.leaves, Disk.leave, List.getElem?_map, hdir, Option.map_some]
    split
    · exact ⟨none, rfl, fun _ => rfl⟩
    · exact ⟨holder, rfl, id⟩
  | power masks =>
    refine ⟨none, ?_, fun _ => rfl⟩
    simp only [Crash.leaves, Disk.crash, List.getElem?_mapIdx, hdir, Option.map_some]
    rfl

theorem keeps_of_durable (crash : Crash) (hdurable : db.pending = []) : crash.keeps d db = db := by
  cases crash with
  | killed => rfl
  | power masks =>
    obtain ⟨durable, pending⟩ := db
    cases hdurable
    have hkeep : keep (masks d) ([] : List ((_ : Bytes) × Bytes)) = [] :=
      List.sublist_nil.1 (keep_sublist (masks d) [])
    rw [Crash.keeps, DurableStore.crash, hkeep]
    rfl

theorem rowsOf_ne_nil {row : (_ : Bytes) × Bytes} (hrow : row ∈ db.pending ++ db.durable) :
    rowsOf db ≠ [] := by
  intro hnil
  exact (all_of_rowsOf_nil hnil fun _ _ => False) row hrow

/-- Rows that a crash cannot undo are there after it, and no marker is. -/
theorem kept_of_replayed (crash : Crash) (hsame : Replayed source db)
    (hnone : source.get encMarkerKey = none) (hspared : crash.spares source ≠ []) :
    (crash.keeps d db).get encMarkerKey = none ∧ rowsOf (crash.keeps d db) ≠ [] := by
  obtain ⟨row, hrow⟩ := List.exists_mem_of_ne_nil _ hspared
  have hall : source.All fun key _ => key ≠ encMarkerKey := by
    rintro ⟨key, value⟩ hmem rfl
    have hsome : (source.get encMarkerKey).isSome = true :=
      List.dlookup_isSome.2 (List.mem_keys_of_mem hmem)
    rw [hnone] at hsome
    cases hsome
  have hunmarked : ∀ db : Database, (db.All fun key _ => key ≠ encMarkerKey) →
      db.get encMarkerKey = none := by
    intro db hdb
    by_contra hsome
    obtain ⟨value, hvalue⟩ := Option.ne_none_iff_exists'.1 hsome
    exact hdb.get hvalue rfl
  have hdball : db.All fun key _ => key ≠ encMarkerKey := by
    rcases hsame with rfl | rfl
    · exact hall
    · exact hall.commit (by simp)
  cases crash with
  | killed =>
    refine ⟨hunmarked _ hdball, ?_⟩
    rcases hsame with rfl | rfl
    · exact rowsOf_ne_nil hrow
    · rw [Crash.keeps, (show Replayed source (source.commit []) from .inr rfl).rowsOf]
      exact rowsOf_ne_nil hrow
  | power masks =>
    refine ⟨hunmarked _ (hdball.crash _), ?_⟩
    have hmem : row ∈ db.durable := by
      rcases hsame with rfl | rfl
      · exact hrow
      · exact List.mem_append_right _ (List.mem_append_right _ hrow)
    exact rowsOf_ne_nil (List.mem_append_right _ (List.mem_append_right _ hmem))

end Crashes

section Boots
variable {crypto : StoreCrypto} {path : String} {master : H256} {s t : Nat}
variable {source : Database} {disk start : Disk} {crash : Crash}

/-- Every row of the source is there and opens to its value. -/
def ShowsRows (crypto : StoreCrypto) (master : H256) (source db : Database) : Prop :=
  ∀ key value, source.get key = some value →
    ∃ raw, db.get key = some raw ∧ openValue crypto master key raw = .ok value

/-- A boot refuses, or the store that it opens shows all rows. -/
def Boots (crypto : StoreCrypto) (source : Database) (t : Nat) (disk : Disk)
    (r : Except OpenStoreError (Store × KeySource)) : Prop :=
  (∃ e, r = .error e) ∨ ∃ store keySource db, r = .ok (store, keySource) ∧
    disk.opened t store.db = some db ∧ ShowsRows crypto store.master source db

/-- Whoever boots, under whatever key: no row is missing. -/
def NoRowMissing (crypto : StoreCrypto) (path : String) (source : Database) (disk : Disk) : Prop :=
  ∀ t host r disk', (Keyvault.openStore crypto path host).Exec (perform t) disk r disk' →
    Boots crypto source t disk' r

/-- Boots of a store that is there: they are refused, or the marker opens under the key. -/
theorem noRowMissing_of_store {d : Nat} {holder : Option Nat} {db : Database}
    (hname : disk.names path = some d) (hdir : disk.dirs[d]? = some ⟨some db, holder⟩)
    (hused : db.get encMarkerKey ≠ none ∨ rowsOf db ≠ [])
    (hshows : ∀ key raw, db.get encMarkerKey = some raw → markerOpens crypto key raw = true →
      ShowsRows crypto key source (db.commit [])) : NoRowMissing crypto path source disk := by
  intro t host r disk' hexec
  have hsafe : (Keyvault.openStore crypto path host).Safe (alone t fun _ => True)
      (fun _ _ => True) (fun _ disk' r => Boots crypto source t disk' r) [] disk := by
    rw [Keyvault.openStore]
    split
    · exact .inl ⟨_, rfl⟩
    · rename_i key keySource hload
      apply (safe_open hname hdir hused).bind
      intro h₁ disk₁ r hr
      cases hr with
      | ok raw hraw hopens hopen =>
        exact .inr ⟨_, keySource, _, rfl, hopen, hshows key raw hraw hopens⟩
      | _ => exact .inl ⟨_, rfl⟩
  have hexec' : (Keyvault.openStore crypto path host).Exec (alone t fun _ => True).handle disk r
      disk' := hexec
  obtain ⟨-, h', hboots⟩ := hexec'.post_of_safe (fun _ => rfl) trivial hsafe
  exact hboots

/-- With the source at its path a boot is refused. -/
theorem noRowMissing_of_source (h : SourceAt path s source disk)
    (hnone : source.get encMarkerKey = none) (hspared : crash.spares source ≠ []) (t : Nat) :
    NoRowMissing crypto path source (crash.leaves t disk) := by
  obtain ⟨hname, db, holder, hdir, hsame⟩ := h
  obtain ⟨holder', hdir', -⟩ := dirs_leaves crash hdir t
  obtain ⟨hunmarked, hrows⟩ := kept_of_replayed (d := s) crash hsame hnone hspared
  have hname' : (crash.leaves t disk).names path = some s := by rw [names_leaves, hname]
  apply noRowMissing_of_store hname' hdir' (.inr hrows)
  intro key raw hraw
  rw [hunmarked] at hraw
  cases hraw

/-- With the sealed copy at the path a boot is under its key, or it is refused. -/
theorem noRowMissing_of_copy (haead : Aead crypto) {e : Nat} {copy : Database}
    (h : CopyAt crypto path master source e copy disk) (t : Nat) :
    NoRowMissing crypto path source (crash.leaves t disk) := by
  obtain ⟨raw, hraw, hsealed⟩ := h.migrated.marker
  obtain ⟨holder', hdir', -⟩ := dirs_leaves crash h.base t
  rw [keeps_of_durable crash h.migrated.durable] at hdir'
  have hname' : (crash.leaves t disk).names path = some e := by rw [names_leaves, h.name]
  apply noRowMissing_of_store hname' hdir' (.inl (by rw [hraw]; simp))
  intro key raw' hraw' hopens
  rw [hraw] at hraw'
  cases hraw'
  have hkey : key = master := master_of_markerOpens haead hsealed.marker hopens
  rw [hkey, commit_nil_of_durable h.migrated.durable]
  exact h.migrated.opens

/-- With nothing at the path a store is made there, which has no row. -/
theorem open_of_missing (hname : disk.names path = none) {nonce : BitVec 96} {raw : Bytes}
    (hseal : sealWith crypto master nonce encMarkerKey encMarkerPlaintext = .ok raw) (t : Nat) :
    ∃ disk', (openStore crypto path master).Exec (perform t) disk
      (.ok ⟨disk.dirs.length, master⟩) disk' ∧
      disk'.opened t disk.dirs.length = some (DurableStore.empty.commit [⟨encMarkerKey, raw⟩]) := by
  let made := disk.newDir path ⟨some .empty, some t⟩
  let c : Chance := { random := some nonce }
  have hopen : made.opened t disk.dirs.length = some .empty :=
    opened_eq_some.2 (dirs_newDir_self _)
  have hcreate : perform t disk (.openDb path true) c = some (.ok disk.dirs.length, made) := by
    simp [perform, openAt, hname, c, made]
  have hget : perform t made (.get disk.dirs.length encMarkerKey) c = some (.ok none, made) := by
    rw [perform, hopen]
    rfl
  have hrows : perform t made (.iterator disk.dirs.length) c = some ([], made) := by
    rw [perform, hopen]
    rfl
  have hput : perform t made (.put disk.dirs.length encMarkerKey raw true) c = some (.ok (),
      made.write t disk.dirs.length (DurableStore.empty.commit [⟨encMarkerKey, raw⟩])) := by
    rw [perform, hopen]
    rfl
  refine ⟨_, ?_, opened_write hopen _⟩
  rw [openStore]
  refine Prog.exec_perform_bind_iff.2 ⟨c, _, _, hcreate, ?_⟩
  dsimp only
  rw [checkOrInitEncMarker, Prog.bind_assoc]
  refine Prog.exec_perform_bind_iff.2 ⟨c, _, _, hget, ?_⟩
  dsimp only
  rw [Prog.bind_assoc]
  refine Prog.exec_perform_bind_iff.2 ⟨c, _, _, hrows, ?_⟩
  rw [if_neg (by simp), sealValue, Prog.bind_assoc, Prog.bind_assoc]
  refine Prog.exec_perform_bind_iff.2 ⟨c, _, made, rfl, ?_⟩
  dsimp only [c]
  rw [Prog.pure_def, Prog.ret_bind, hseal]
  dsimp only
  rw [Prog.bind_assoc]
  exact Prog.exec_perform_bind_iff.2 ⟨c, _, _, hput, .ret _ _⟩

theorem boot_of_missing (hname : disk.names path = none) {nonce : BitVec 96} {raw : Bytes}
    (hseal : sealWith crypto master nonce encMarkerKey encMarkerPlaintext = .ok raw) (t : Nat) :
    ∃ keySource disk', (Keyvault.openStore crypto path (firstBoot master)).Exec (perform t) disk
      (.ok (⟨disk.dirs.length, master⟩, keySource)) disk' ∧
      disk'.opened t disk.dirs.length = some (DurableStore.empty.commit [⟨encMarkerKey, raw⟩]) := by
  obtain ⟨disk', hexec, hopen⟩ := open_of_missing hname hseal t
  have hload := Keyvault.load_firstBoot master
    (Keyvault.resolveKeyFile (firstBoot master) path none)
  refine ⟨.generated (Keyvault.resolveKeyFile (firstBoot master) path none), disk', ?_, hopen⟩
  rw [Keyvault.openStore, hload]
  exact hexec.bind (.ret _ _)

theorem missing_of_missing (hname : disk.names path = none)
    (hsealed : ∃ raw, Sealed crypto master encMarkerKey encMarkerPlaintext raw)
    (hnone : source.get encMarkerKey = none) (hspared : crash.spares source ≠ []) (t : Nat) :
    ¬ NoRowMissing crypto path source (crash.leaves t disk) := by
  obtain ⟨raw, nonce, hseal⟩ := hsealed
  have hname' : (crash.leaves t disk).names path = none := by rw [names_leaves, hname]
  obtain ⟨keySource, disk', hexec, hopen⟩ := boot_of_missing hname' hseal 0
  intro hall
  rcases hall 0 _ _ _ hexec with ⟨e, herror⟩ | ⟨store, keySource', db, hok, hdb, hshows⟩
  · cases herror
  · cases hok
    rw [hopen] at hdb
    cases hdb
    obtain ⟨row, hrow⟩ := List.exists_mem_of_ne_nil _ hspared
    have hsome : (source.get row.1).isSome = true :=
      List.dlookup_isSome.2 (List.mem_keys_of_mem (crash.spares_subset source hrow))
    obtain ⟨value, hvalue⟩ := Option.isSome_iff_exists.1 hsome
    obtain ⟨raw', hraw', -⟩ := hshows row.1 value hvalue
    have hkey : row.1 ∉ [(⟨encMarkerKey, raw⟩ : (_ : Bytes) × Bytes)].keys := by
      intro hmem
      rw [List.mem_singleton.1 hmem, hnone] at hvalue
      cases hvalue
    rw [DurableStore.get_commit_ne _ hkey] at hraw'
    cases hraw'

/-- After a crash anywhere in a real run no boot misses a row, but for the crash that falls between
the two renames. -/
theorem no_row_missing_iff (haead : Aead crypto) (hplain : PlaintextAt path s source start)
    (hspared : crash.spares source ≠ []) (master : H256) (t : Nat)
    {p : M (Except MigrateError MigrateReport)}
    (hsteps : (migrateEncrypt crypto path (some master) false).Steps (perform t) start p disk) :
    NoRowMissing crypto path source (crash.leaves t disk) ↔ (disk.names path).isSome = true := by
  obtain ⟨holder, hdir⟩ := hplain.base
  have hsteps' : (migrateEncrypt crypto path (some master) false).Steps
      (alone t (Stage crypto path master s source)).handle start p disk := hsteps
  have hstart : SourceAt path s source start := ⟨hplain.name, source, holder, hdir, .inl rfl⟩
  have hstage := hsteps'.inv_of_safe (h := []) (fun _ => rfl) (.source hstart) (safe_real hplain)
  cases hstage with
  | source h =>
    rw [h.name]
    exact iff_of_true (noRowMissing_of_source h hplain.unmarked hspared t) rfl
  | between hname hsealed =>
    rw [hname]
    exact iff_of_false (missing_of_missing hname hsealed hplain.unmarked hspared t) (by simp)
  | copied e copy h =>
    rw [h.name]
    exact iff_of_true (noRowMissing_of_copy haead h t) rfl

theorem no_row_missing_sample : ∃ p disk,
    (migrateEncrypt sampleCrypto "store" (some master₁) false).Steps (perform 0) plainDisk p disk ∧
    NoRowMissing sampleCrypto "store" plainStore (Crash.leaves 0 disk (.power fun _ => [])) := by
  obtain ⟨p, disk, hdisk, hname⟩ : ∃ p disk, Prog.advance? (perform 0) migrationChance 12
      (migrateEncrypt sampleCrypto "store" (some master₁) false) plainDisk = some (p, disk) ∧
        (disk.names "store").isSome = true := ⟨_, _, rfl, rfl⟩
  have hsteps := Prog.steps_of_advance hdisk
  have hspared : (Crash.power fun _ => []).spares plainStore ≠ [] := by decide
  exact ⟨p, disk, hsteps, (no_row_missing_iff sampleCrypto_aead plainDisk_plaintext hspared master₁ 0
    hsteps).2 hname⟩

/-- Killed between the two renames: the next boot succeeds and the row is not there. -/
theorem boot_between_renames : ∃ p disk disk' db,
    (migrateEncrypt sampleCrypto "store" (some master₁) false).Steps (perform 0) plainDisk p disk ∧
    (Keyvault.openStore sampleCrypto "store" (firstBoot master₁)).Exec (perform 1)
      (Crash.killed.leaves 0 disk) (.ok (⟨2, master₁⟩, .generated "store.master.key")) disk' ∧
    disk'.opened 1 2 = some db ∧ db.get (utf8 "batchset:1") = none ∧
    ¬ NoRowMissing sampleCrypto "store" plainStore (Crash.killed.leaves 0 disk) := by
  obtain ⟨p, disk, hdisk, disk', db, hboot, hopen, hlost⟩ : ∃ p disk,
      Prog.advance? (perform 0) migrationChance 18
        (migrateEncrypt sampleCrypto "store" (some master₁) false) plainDisk = some (p, disk) ∧
      ∃ disk' db, Prog.advance? (perform 1) migrationChance 5
        (Keyvault.openStore sampleCrypto "store" (firstBoot master₁)) (Crash.killed.leaves 0 disk) =
          some (.ret (.ok (⟨2, master₁⟩, .generated "store.master.key")), disk') ∧
        disk'.opened 1 2 = some db ∧ db.get (utf8 "batchset:1") = none :=
    ⟨_, _, rfl, _, _, rfl, rfl, rfl⟩
  have hexec := (Prog.steps_of_advance hboot).exec rfl
  refine ⟨p, disk, disk', db, Prog.steps_of_advance hdisk, hexec, hopen, hlost, ?_⟩
  intro hall
  rcases hall 1 _ _ _ hexec with ⟨e, herror⟩ | ⟨store, keySource, db', hok, hdb, hshows⟩
  · cases herror
  · cases hok
    rw [hopen] at hdb
    cases hdb
    obtain ⟨raw, hraw, -⟩ := hshows (utf8 "batchset:1") [1] (by decide)
    rw [hlost] at hraw
    cases hraw

end Boots
end Gateway.Vault
