import CitrateGateway.Shared.DurableStore
import CitrateGateway.Shared.RelyGuarantee
import CitrateGateway.Shared.Words
import Mathlib.Data.List.Sort
import Mathlib.Logic.Function.Basic

/-!
# Directories and the databases in them

Names lead to directories, and a directory may hold a database, which one task at a time can
have open. An open database stays with its directory when the directory is renamed or removed. A
rename is atomic and replaces an empty directory at most.
-/

namespace Gateway.Files
set_option autoImplicit false
open Words Effects Durable

/-- Keys and values as the database has them. -/
abbrev Database := DurableStore (fun _ : Bytes => Bytes)

/-- The rows in the order of their keys. -/
def rowsOf (db : Database) : List (Bytes × Bytes) :=
  (db.rows.map fun row => (row.1, row.2)).insertionSort fun a b => a.1 ≤ b.1

structure Dir where
  base : Option Database := none
  /-- Who holds the `LOCK` of the database. -/
  holder : Option Nat := none

structure Disk where
  names : String → Option Nat
  dirs : List Dir

namespace Disk
variable (disk : Disk)

def dir (path : String) : Option (Nat × Dir) :=
  (disk.names path).bind fun d => disk.dirs[d]?.map fun dir => (d, dir)

/-- The database at a path. -/
def database (path : String) : Option Database := (disk.dir path).bind (·.2.base)

def setName (path : String) (d : Option Nat) : Disk :=
  { disk with names := Function.update disk.names path d }

def setDir (d : Nat) (dir : Dir) : Disk := { disk with dirs := disk.dirs.set d dir }

/-- A new directory at a path. -/
def newDir (path : String) (dir : Dir) : Disk where
  names := Function.update disk.names path (some disk.dirs.length)
  dirs := disk.dirs ++ [dir]

/-- The database that a task has open in a directory. -/
def opened (t d : Nat) : Option Database :=
  match disk.dirs[d]? with
  | some dir => if dir.holder = some t then dir.base else none
  | none => none

/-- A task writes to the database it has open. -/
def write (t d : Nat) (db : Database) : Disk := disk.setDir d ⟨some db, some t⟩

/-- The locks of a task are given up when it ends. -/
def leave (t : Nat) : Disk :=
  { disk with dirs := disk.dirs.map fun dir =>
      if dir.holder = some t then { dir with holder := none } else dir }

/-- A power failure may lose what was not synced. -/
def crash (masks : Nat → List Bool) : Disk :=
  { disk with dirs := disk.dirs.mapIdx fun d dir => ⟨dir.base.map (·.crash (masks d)), none⟩ }

end Disk

inductive Op where
  | pathExists (path : String)
  | openDb (path : String) (createIfMissing : Bool)
  | get (db : Nat) (key : Bytes)
  /-- All rows from the start; the last item may be an error. -/
  | iterator (db : Nat)
  | put (db : Nat) (key value : Bytes) (sync : Bool)
  | writeBatch (db : Nat) (group : List (Bytes × Bytes))
  | flush (db : Nat)
  /-- The handle is dropped. -/
  | close (db : Nat)
  | getrandom
  /-- First what is in the directory is removed, and then the directory. -/
  | removeEntries (path : String)
  | removeDir (path : String)
  | rename («from» «to» : String)
  | timestamp

def Op.isPut : Op → Bool
  | .put _ _ _ _ | .writeBatch _ _ => true
  | _ => false

abbrev Op.Ans : Op → Type
  | .pathExists _ => Bool
  | .openDb _ _ => Except String Nat
  | .get _ _ => Except String (Option Bytes)
  | .iterator _ => List (Except String (Bytes × Bytes))
  | .put _ _ _ _ | .writeBatch _ _ | .flush _ => Except String Unit
  | .removeEntries _ | .removeDir _ | .rename _ _ => Except String Unit
  | .close _ => Unit
  | .getrandom => Option (BitVec 96)
  | .timestamp => String

abbrev FileSig : Sig := ⟨Op, Op.Ans⟩

abbrev Event := FileSig.Event

abbrev M := Prog FileSig

section Operations

def pathExists (path : String) : M Bool := .perform (E := FileSig) (.pathExists path)

def openDb (path : String) (createIfMissing : Bool) : M (Except String Nat) :=
  .perform (E := FileSig) (.openDb path createIfMissing)

def get (db : Nat) (key : Bytes) : M (Except String (Option Bytes)) :=
  .perform (E := FileSig) (.get db key)

def iterator (db : Nat) : M (List (Except String (Bytes × Bytes))) :=
  .perform (E := FileSig) (.iterator db)

def put (db : Nat) (key value : Bytes) (sync : Bool) : M (Except String Unit) :=
  .perform (E := FileSig) (.put db key value sync)

def writeBatch (db : Nat) (group : List (Bytes × Bytes)) : M (Except String Unit) :=
  .perform (E := FileSig) (.writeBatch db group)

def flush (db : Nat) : M (Except String Unit) := .perform (E := FileSig) (.flush db)

def close (db : Nat) : M Unit := .perform (E := FileSig) (.close db)

def getrandom : M (Option (BitVec 96)) := .perform (E := FileSig) .getrandom

def removeDirAll (path : String) : M (Except String Unit) := do
  match ← .perform (E := FileSig) (.removeEntries path) with
  | .error e => return .error e
  | .ok () => .perform (E := FileSig) (.removeDir path)

def rename («from» «to» : String) : M (Except String Unit) :=
  .perform (E := FileSig) (.rename «from» «to»)

def timestamp : M String := .perform (E := FileSig) .timestamp

end Operations

section Handle

/-- What the environment decides of an operation: whether it fails, whether it has had its effect
then, how many rows it had read, and what it draws. -/
structure Chance where
  fault : Bool := false
  applied : Bool := false
  rowsRead : Nat := 0
  message : String := ""
  random : Option (BitVec 96) := none
  stamp : String := ""

/-- Opening a database takes its lock and replays its log, which makes the rows durable. -/
def openAt (disk : Disk) (t : Nat) (path : String) (createIfMissing : Bool) (message : String) :
    Except String Nat × Disk :=
  match disk.names path with
  | none =>
    if createIfMissing then
      (.ok disk.dirs.length, disk.newDir path ⟨some .empty, some t⟩)
    else (.error message, disk)
  | some d =>
    match disk.dirs[d]? with
    | some ⟨some db, none⟩ => (.ok d, disk.write t d (db.commit []))
    | some ⟨none, none⟩ =>
      if createIfMissing then (.ok d, disk.write t d .empty) else (.error message, disk)
    | _ => (.error message, disk)

/-- A write that fails may have reached the database. -/
def writeDb (disk : Disk) (t d : Nat) (c : Chance) (unsynced written : Database) :
    Except String Unit × Disk :=
  if c.fault then
    (.error c.message, if c.applied then disk.write t d unsynced else disk)
  else (.ok (), disk.write t d written)

def renameDir (disk : Disk) («from» «to» : String) (c : Chance) : Except String Unit × Disk :=
  match disk.names «from» with
  | none => (.error c.message, disk)
  | some d =>
    if c.fault || (disk.database «to»).isSome then (.error c.message, disk)
    else (.ok (), (disk.setName «from» none).setName «to» (some d))

/-- An operation of a task; `none` for the use of a database that the task has not open. -/
def perform (t : Nat) (disk : Disk) : (o : Op) → Chance → Option (o.Ans × Disk)
  | .pathExists path, _ => some ((disk.names path).isSome, disk)
  | .openDb path createIfMissing, c =>
    if c.fault then
      some (.error c.message,
        if c.applied && createIfMissing && (disk.names path).isNone then disk.newDir path {}
        else disk)
    else some (openAt disk t path createIfMissing c.message)
  | .get d key, c => (disk.opened t d).map fun db =>
    (if c.fault then .error c.message else .ok (db.get key), disk)
  | .iterator d, c => (disk.opened t d).map fun db =>
    let items := (rowsOf db).map .ok
    (if c.fault then items.take c.rowsRead ++ [.error c.message] else items, disk)
  | .put d key value sync, c => (disk.opened t d).map fun db =>
    writeDb disk t d c (db.put ⟨key, value⟩)
      (if sync then db.commit [⟨key, value⟩] else db.put ⟨key, value⟩)
  | .writeBatch d group, c => (disk.opened t d).map fun db =>
    let rows := group.map fun row => ⟨row.1, row.2⟩
    writeDb disk t d c (rows.foldl .put db) (db.commit rows)
  | .flush d, c => (disk.opened t d).map fun db => writeDb disk t d c db (db.commit [])
  | .close d, _ => (disk.opened t d).map fun db => ((), disk.setDir d ⟨some db, none⟩)
  | .getrandom, c => some (c.random, disk)
  | .removeEntries path, c =>
    if (disk.names path).isNone then some (.error c.message, disk)
    else some (if c.fault then .error c.message else .ok (),
      if c.fault && !c.applied then disk else disk.newDir path {})
  | .removeDir path, c =>
    if c.fault || (disk.names path).isNone || (disk.database path).isSome then
      some (.error c.message, disk)
    else some (.ok (), disk.setName path none)
  | .rename «from» «to», c => some (renameDir disk «from» «to» c)
  | .timestamp, c => some (c.stamp, disk)

end Handle

section Frames
variable {disk disk' : Disk} {t u d : Nat} {db : Database} {dir : Dir}

/-- What a task has open is as it was. -/
def Undisturbed (t : Nat) (disk disk' : Disk) : Prop :=
  ∀ (d : Nat) (dir : Dir), disk.dirs[d]? = some dir → dir.holder = some t →
    disk'.dirs[d]? = some dir

theorem Undisturbed.refl (t : Nat) (disk : Disk) : Undisturbed t disk disk := fun _ _ h _ => h

theorem Undisturbed.trans {disk₁ disk₂ disk₃ : Disk} (h : Undisturbed t disk₁ disk₂)
    (h' : Undisturbed t disk₂ disk₃) : Undisturbed t disk₁ disk₃ :=
  fun d dir hdir hheld => h' d dir (h d dir hdir hheld) hheld

theorem opened_eq_some : disk.opened t d = some db ↔ disk.dirs[d]? = some ⟨some db, some t⟩ := by
  unfold Disk.opened
  split
  · rename_i dir hdir
    obtain ⟨base, holder⟩ := dir
    simp only [hdir, Option.ite_none_right_eq_some, Option.some.injEq, Dir.mk.injEq]
    exact and_comm
  · rename_i hdir
    simp [hdir]

theorem dirs_setDir_ne {e : Nat} (h : d ≠ e) : (disk.setDir d dir).dirs[e]? = disk.dirs[e]? :=
  List.getElem?_set_ne h

theorem dirs_setDir_self (h : d < disk.dirs.length) :
    (disk.setDir d dir).dirs[d]? = some dir := by
  rw [Disk.setDir, List.getElem?_set_self h]

theorem dirs_newDir {path : String} (h : d < disk.dirs.length) :
    (disk.newDir path dir).dirs[d]? = disk.dirs[d]? :=
  List.getElem?_append_left h

theorem lt_of_dir (h : disk.dirs[d]? = some dir) : d < disk.dirs.length :=
  (List.getElem?_eq_some_iff.1 h).1

theorem undisturbed_setDir {dir₀ : Dir} (h₀ : disk.dirs[d]? = some dir₀)
    (hne : dir₀.holder ≠ some u) (dir : Dir) : Undisturbed u disk (disk.setDir d dir) := by
  intro e dir₁ hdir hheld
  have hde : d ≠ e := by
    rintro rfl
    rw [h₀] at hdir
    cases hdir
    exact hne hheld
  rw [dirs_setDir_ne hde, hdir]

theorem undisturbed_newDir (path : String) (dir : Dir) :
    Undisturbed u disk (disk.newDir path dir) :=
  fun _ _ hdir _ => (dirs_newDir (lt_of_dir hdir)).trans hdir

theorem undisturbed_write (h : disk.opened t d = some db) (hne : t ≠ u) (db' : Database) :
    Undisturbed u disk (disk.write t d db') := by
  refine undisturbed_setDir (opened_eq_some.1 h) ?_ _
  intro heq
  cases heq
  exact hne rfl

theorem undisturbed_writeDb {c : Chance} (h : disk.opened t d = some db) (hne : t ≠ u)
    (unsynced written : Database) :
    Undisturbed u disk (writeDb disk t d c unsynced written).2 := by
  unfold writeDb
  split
  · dsimp only
    split
    · exact undisturbed_write h hne _
    · exact .refl u disk
  · exact undisturbed_write h hne _

theorem undisturbed_openAt (path message : String) (createIfMissing : Bool) :
    Undisturbed u disk (openAt disk t path createIfMissing message).2 := by
  unfold openAt
  split
  · split
    · exact undisturbed_newDir _ _
    · exact .refl u disk
  · split
    · rename_i hdir
      exact undisturbed_setDir hdir (by simp) _
    · rename_i hdir
      split
      · exact undisturbed_setDir hdir (by simp) _
      · exact .refl u disk
    · exact .refl u disk

theorem undisturbed_renameDir («from» «to» : String) (c : Chance) :
    Undisturbed u disk (renameDir disk «from» «to» c).2 := by
  unfold renameDir
  split
  · exact .refl u disk
  · split
    · exact .refl u disk
    · exact fun _ _ hdir _ => hdir

/-- No operation of a task touches what another task has open. -/
theorem perform_undisturbed {o : Op} {c : Chance} {x : o.Ans} (hne : t ≠ u)
    (h : perform t disk o c = some (x, disk')) : Undisturbed u disk disk' := by
  cases o with
  | pathExists path => cases h; exact .refl u disk
  | openDb path createIfMissing =>
    simp only [perform] at h
    split at h
    · cases h
      split
      · exact undisturbed_newDir _ _
      · exact .refl u disk
    · have heq : openAt disk t path createIfMissing c.message = (x, disk') := Option.some.inj h
      have hopen : Undisturbed u disk (openAt disk t path createIfMissing c.message).2 :=
        undisturbed_openAt path c.message createIfMissing
      rwa [heq] at hopen
  | get d key =>
    obtain ⟨db, -, heq⟩ := Option.map_eq_some_iff.1 h
    cases heq
    exact .refl u disk
  | iterator d =>
    obtain ⟨db, -, heq⟩ := Option.map_eq_some_iff.1 h
    cases heq
    exact .refl u disk
  | put d key value sync =>
    obtain ⟨db, hopen, heq⟩ := Option.map_eq_some_iff.1 h
    have := undisturbed_writeDb (c := c) hopen hne (db.put ⟨key, value⟩)
      (if sync then db.commit [⟨key, value⟩] else db.put ⟨key, value⟩)
    rwa [heq] at this
  | writeBatch d group =>
    obtain ⟨db, hopen, heq⟩ := Option.map_eq_some_iff.1 h
    have := undisturbed_writeDb (c := c) hopen hne
      ((group.map fun row => ⟨row.1, row.2⟩).foldl .put db)
      (db.commit (group.map fun row => ⟨row.1, row.2⟩))
    rwa [heq] at this
  | flush d =>
    obtain ⟨db, hopen, heq⟩ := Option.map_eq_some_iff.1 h
    have := undisturbed_writeDb (c := c) hopen hne db (db.commit [])
    rwa [heq] at this
  | close d =>
    obtain ⟨db, hopen, heq⟩ := Option.map_eq_some_iff.1 h
    cases heq
    refine undisturbed_setDir (opened_eq_some.1 hopen) ?_ _
    intro heq
    cases heq
    exact hne rfl
  | getrandom => cases h; exact .refl u disk
  | removeEntries path =>
    simp only [perform] at h
    split at h
    · cases h
      exact .refl u disk
    · cases h
      split
      · exact .refl u disk
      · exact undisturbed_newDir _ _
  | removeDir path =>
    simp only [perform] at h
    split at h
    · cases h
      exact .refl u disk
    · cases h
      exact fun _ _ hdir _ => hdir
  | rename «from» «to» =>
    have heq : renameDir disk «from» «to» c = (x, disk') := Option.some.inj h
    have hrename : Undisturbed u disk (renameDir disk «from» «to» c).2 :=
      undisturbed_renameDir «from» «to» c
    rwa [heq] at hrename
  | timestamp => cases h; exact .refl u disk

theorem undisturbed_leave (hne : t ≠ u) : Undisturbed u disk (disk.leave t) := by
  intro d dir hdir hheld
  simp only [Disk.leave, List.getElem?_map, hdir, Option.map_some]
  rw [if_neg]
  rw [hheld]
  exact fun heq => hne (Option.some.inj heq).symm

end Frames

section Answers
variable {disk disk' : Disk} {t d : Nat} {c : Chance} {db : Database}

theorem perform_get {key : Bytes} {x : Except String (Option Bytes)}
    (h : perform t disk (.get d key) c = some (x, disk')) :
    disk' = disk ∧ ∃ db, disk.opened t d = some db ∧
      (x = .ok (db.get key) ∨ ∃ msg, x = .error msg) := by
  obtain ⟨db, hopen, heq⟩ := Option.map_eq_some_iff.1 h
  cases heq
  refine ⟨rfl, db, hopen, ?_⟩
  split
  · exact Or.inr ⟨_, rfl⟩
  · exact Or.inl rfl

theorem perform_iterator {x : List (Except String (Bytes × Bytes))}
    (h : perform t disk (.iterator d) c = some (x, disk')) :
    disk' = disk ∧ ∃ db, disk.opened t d = some db ∧ (x = (rowsOf db).map .ok ∨
      ∃ n msg, x = ((rowsOf db).map .ok).take n ++ [.error msg]) := by
  obtain ⟨db, hopen, heq⟩ := Option.map_eq_some_iff.1 h
  cases heq
  refine ⟨rfl, db, hopen, ?_⟩
  split
  · exact Or.inr ⟨_, _, rfl⟩
  · exact Or.inl rfl

theorem writeDb_cases {unsynced written : Database} {x : Except String Unit}
    (h : writeDb disk t d c unsynced written = (x, disk')) :
    (x = .ok () ∧ disk' = disk.write t d written) ∨
      ∃ msg, x = .error msg ∧ (disk' = disk ∨ disk' = disk.write t d unsynced) := by
  unfold writeDb at h
  split at h
  · cases h
    refine Or.inr ⟨_, rfl, ?_⟩
    split
    · exact Or.inr rfl
    · exact Or.inl rfl
  · cases h
    exact Or.inl ⟨rfl, rfl⟩

theorem perform_put {key value : Bytes} {sync : Bool} {x : Except String Unit}
    (h : perform t disk (.put d key value sync) c = some (x, disk')) :
    ∃ db, disk.opened t d = some db ∧
      ((x = .ok () ∧ disk' = disk.write t d
        (if sync then db.commit [⟨key, value⟩] else db.put ⟨key, value⟩)) ∨
      ∃ msg, x = .error msg ∧ (disk' = disk ∨ disk' = disk.write t d (db.put ⟨key, value⟩))) := by
  obtain ⟨db, hopen, heq⟩ := Option.map_eq_some_iff.1 h
  exact ⟨db, hopen, writeDb_cases heq⟩

theorem perform_writeBatch {group : List (Bytes × Bytes)} {x : Except String Unit}
    (h : perform t disk (.writeBatch d group) c = some (x, disk')) :
    ∃ db, disk.opened t d = some db ∧
      ((x = .ok () ∧ disk' = disk.write t d (db.commit (group.map fun row => ⟨row.1, row.2⟩))) ∨
      ∃ msg, x = .error msg ∧ (disk' = disk ∨
        disk' = disk.write t d ((group.map fun row => ⟨row.1, row.2⟩).foldl .put db))) := by
  obtain ⟨db, hopen, heq⟩ := Option.map_eq_some_iff.1 h
  exact ⟨db, hopen, writeDb_cases heq⟩

theorem perform_flush {x : Except String Unit}
    (h : perform t disk (.flush d) c = some (x, disk')) :
    ∃ db, disk.opened t d = some db ∧
      ((x = .ok () ∧ disk' = disk.write t d (db.commit [])) ∨
      ∃ msg, x = .error msg ∧ (disk' = disk ∨ disk' = disk.write t d db)) := by
  obtain ⟨db, hopen, heq⟩ := Option.map_eq_some_iff.1 h
  exact ⟨db, hopen, writeDb_cases heq⟩

theorem perform_close {x : Unit} (h : perform t disk (.close d) c = some (x, disk')) :
    ∃ db, disk.opened t d = some db ∧ disk' = disk.setDir d ⟨some db, none⟩ := by
  obtain ⟨db, hopen, heq⟩ := Option.map_eq_some_iff.1 h
  cases heq
  exact ⟨db, hopen, rfl⟩

/-- What opening a database can do. -/
inductive Opening (t : Nat) (disk : Disk) (path : String) (createIfMissing : Bool) :
    Except String Nat → Disk → Prop
  | failed (msg : String) : Opening t disk path createIfMissing (.error msg) disk
  | began (msg : String) (hcreate : createIfMissing = true) (hname : disk.names path = none) :
    Opening t disk path createIfMissing (.error msg) (disk.newDir path {})
  | created (hcreate : createIfMissing = true) (hname : disk.names path = none) :
    Opening t disk path createIfMissing (.ok disk.dirs.length)
      (disk.newDir path ⟨some .empty, some t⟩)
  | found (d : Nat) (db : Database) (hname : disk.names path = some d)
    (hdir : disk.dirs[d]? = some ⟨some db, none⟩) :
    Opening t disk path createIfMissing (.ok d) (disk.write t d (db.commit []))
  | filled (d : Nat) (hcreate : createIfMissing = true) (hname : disk.names path = some d)
    (hdir : disk.dirs[d]? = some ⟨none, none⟩) :
    Opening t disk path createIfMissing (.ok d) (disk.write t d .empty)

theorem perform_openDb {path : String} {createIfMissing : Bool} {x : Except String Nat}
    (h : perform t disk (.openDb path createIfMissing) c = some (x, disk')) :
    Opening t disk path createIfMissing x disk' := by
  simp only [perform] at h
  split at h
  · cases h
    split
    · rename_i hcond
      simp only [Bool.and_eq_true, Option.isNone_iff_eq_none] at hcond
      exact .began _ hcond.1.2 hcond.2
    · exact .failed _
  · have heq : openAt disk t path createIfMissing c.message = (x, disk') := Option.some.inj h
    unfold openAt at heq
    split at heq
    · rename_i hname
      split at heq
      · rename_i hcreate
        cases heq
        exact .created hcreate hname
      · cases heq
        exact .failed _
    · rename_i d hname
      split at heq
      · rename_i hdir
        cases heq
        exact .found d _ hname hdir
      · rename_i hdir
        split at heq
        · rename_i hcreate
          cases heq
          exact .filled d hcreate hname hdir
        · cases heq
          exact .failed _
      · cases heq
        exact .failed _

theorem perform_pathExists {path : String} {x : Bool}
    (h : perform t disk (.pathExists path) c = some (x, disk')) :
    x = (disk.names path).isSome ∧ disk' = disk := by
  cases h
  exact ⟨rfl, rfl⟩

theorem perform_timestamp {x : String} (h : perform t disk .timestamp c = some (x, disk')) :
    disk' = disk := by
  cases h
  rfl

theorem perform_removeEntries {path : String} {x : Except String Unit}
    (h : perform t disk (.removeEntries path) c = some (x, disk')) :
    disk' = disk ∨ disk' = disk.newDir path {} := by
  simp only [perform] at h
  split at h
  · cases h
    exact .inl rfl
  · cases h
    split
    · exact .inl rfl
    · exact .inr rfl

theorem perform_removeDir {path : String} {x : Except String Unit}
    (h : perform t disk (.removeDir path) c = some (x, disk')) :
    (x = .ok () ∧ disk' = disk.setName path none) ∨ ∃ msg, x = .error msg ∧ disk' = disk := by
  simp only [perform] at h
  split at h
  · cases h
    exact .inr ⟨_, rfl, rfl⟩
  · cases h
    exact .inl ⟨rfl, rfl⟩

theorem perform_rename {«from» «to» : String} {x : Except String Unit}
    (h : perform t disk (.rename «from» «to») c = some (x, disk')) :
    (∃ d, disk.names «from» = some d ∧ x = .ok () ∧
      disk' = (disk.setName «from» none).setName «to» (some d)) ∨
    ∃ msg, x = .error msg ∧ disk' = disk := by
  have heq : renameDir disk «from» «to» c = (x, disk') := Option.some.inj h
  unfold renameDir at heq
  split at heq
  · cases heq
    exact .inr ⟨_, rfl, rfl⟩
  · rename_i d hname
    split at heq
    · cases heq
      exact .inr ⟨_, rfl, rfl⟩
    · cases heq
      exact .inl ⟨d, hname, rfl, rfl⟩

theorem isSome_openDb (disk : Disk) (t : Nat) (path : String) (createIfMissing : Bool)
    (c : Chance) : (perform t disk (.openDb path createIfMissing) c).isSome = true := by
  simp only [perform]
  split <;> rfl

/-- What the user of an open database asks of it is done. -/
theorem isSome_of_opened (hopen : disk.opened t d = some db) (c : Chance) :
    (∀ key, (perform t disk (.get d key) c).isSome = true) ∧
      (perform t disk (.iterator d) c).isSome = true ∧
      (∀ key value sync, (perform t disk (.put d key value sync) c).isSome = true) ∧
      (∀ group, (perform t disk (.writeBatch d group) c).isSome = true) ∧
      (perform t disk (.flush d) c).isSome = true ∧
      (perform t disk (.close d) c).isSome = true := by
  simp [perform, hopen]

end Answers

section Kept
variable {disk disk₁ disk₂ : Disk} {t d e : Nat} {c : Chance} {db db' : Database}

/-- All that a task has open, but for one, is as it was. -/
def Keeps (t : Nat) (d : Option Nat) (disk disk' : Disk) : Prop :=
  ∀ e db, some e ≠ d → disk.opened t e = some db → disk'.opened t e = some db

theorem Keeps.trans {d : Option Nat} (h : Keeps t d disk disk₁) (h' : Keeps t d disk₁ disk₂) :
    Keeps t d disk disk₂ :=
  fun e db hne hopen => h' e db hne (h e db hne hopen)

theorem Keeps.weaken {d : Option Nat} (h : Keeps t none disk disk₁) : Keeps t d disk disk₁ :=
  fun e db _ hopen => h e db (by simp) hopen

theorem Undisturbed.keeps (h : Undisturbed t disk disk₁) (d : Option Nat) : Keeps t d disk disk₁ := by
  intro e db _ hopen
  rw [opened_eq_some] at hopen ⊢
  exact h e _ hopen rfl

theorem Undisturbed.opened (h : Undisturbed t disk disk₁) (hopen : disk.opened t d = some db) :
    disk₁.opened t d = some db :=
  h.keeps none d db (by simp) hopen

theorem opened_write (hopen : disk.opened t d = some db) (db' : Database) :
    (disk.write t d db').opened t d = some db' := by
  rw [opened_eq_some] at hopen ⊢
  exact dirs_setDir_self (lt_of_dir hopen)

theorem keeps_setDir (d : Nat) (dir : Dir) : Keeps t (some d) disk (disk.setDir d dir) := by
  intro e db hne hopen
  rw [opened_eq_some] at hopen ⊢
  rw [dirs_setDir_ne (fun h => hne (congrArg some h.symm)), hopen]

end Kept
end Gateway.Files
