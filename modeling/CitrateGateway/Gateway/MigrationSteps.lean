import CitrateGateway.Gateway.UnmixedStores

/-!
# The steps of a migration

A migration is followed from its start to its end with nothing else running. At every moment its
path leads to the source, or to the sealed copy of it, or, between the two renames, nowhere.
-/

namespace Gateway.Vault
set_option autoImplicit false
open Words Effects Durable Files

section Rows
variable {source db : Database} {key value : Bytes}

/-- The database, whose log may have been replayed since. -/
def Replayed (source db : Database) : Prop := db = source ∨ db = source.commit []

theorem rows_commit_nil (db : Database) : (db.commit []).rows = db.rows := by
  simp [DurableStore.rows, DurableStore.commit]

theorem Replayed.get (h : Replayed source db) (key : Bytes) : db.get key = source.get key := by
  rcases h with rfl | rfl
  · rfl
  · exact get_commit_nil source key

theorem Replayed.rowsOf (h : Replayed source db) : rowsOf db = rowsOf source := by
  rcases h with rfl | rfl
  · rfl
  · rw [Files.rowsOf, rows_commit_nil, Files.rowsOf]

theorem commit_nil_of_durable (h : db.pending = []) : db.commit [] = db := by
  obtain ⟨durable, pending⟩ := db
  cases h
  rfl

theorem Replayed.commit (h : Replayed source db) : Replayed source (db.commit []) := by
  rcases h with rfl | rfl
  · exact .inr rfl
  · exact .inr (commit_nil_of_durable rfl)

theorem mem_rowsOf : (key, value) ∈ rowsOf db ↔ db.get key = some value := by
  rw [Files.rowsOf, List.mem_insertionSort, ← DurableStore.mem_rows]
  constructor
  · intro h
    obtain ⟨⟨k, v⟩, hmem, heq⟩ := List.mem_map.1 h
    cases heq
    exact hmem
  · exact fun h => List.mem_map.2 ⟨⟨key, value⟩, h, rfl⟩

/-- The sealed copy of a plaintext store: its rows and the marker, all of them durable. -/
structure Migrated (crypto : StoreCrypto) (master : H256) (source db : Database) : Prop where
  marker : ∃ raw, db.get encMarkerKey = some raw ∧
    Sealed crypto master encMarkerKey encMarkerPlaintext raw
  keys : ∀ key, key ≠ encMarkerKey → (db.get key).isSome = (source.get key).isSome
  opens : ∀ key value, source.get key = some value →
    ∃ raw, db.get key = some raw ∧ openValue crypto master key raw = .ok value
  durable : db.pending = []

variable {crypto : StoreCrypto} {master : H256} {raw : Bytes}

/-- A staging store that was filled with the rows of the source is its sealed copy. -/
theorem migrated_of_filled (hnone : source.get encMarkerKey = none)
    (hsealed : Sealed crypto master encMarkerKey encMarkerPlaintext raw)
    (h : Filled crypto master (rowsOf source) (DurableStore.empty.commit [⟨encMarkerKey, raw⟩]) db) :
    Migrated crypto master source db := by
  have habsent : ∀ key, source.get key = none → key ∉ (rowsOf source).map Prod.fst := by
    intro key hkey hmem
    obtain ⟨⟨k, v⟩, hrow, rfl⟩ := List.mem_map.1 hmem
    rw [mem_rowsOf.1 hrow] at hkey
    cases hkey
  have hopens : ∀ key value, source.get key = some value →
      ∃ raw, db.get key = some raw ∧ openValue crypto master key raw = .ok value :=
    fun key value hvalue => h.opens (key, value) (mem_rowsOf.2 hvalue)
  constructor
  · refine ⟨raw, ?_, hsealed⟩
    rw [h.others _ (habsent _ hnone)]
    exact DurableStore.get_commit_self _ _ _
  · intro key hkey
    cases hvalue : source.get key with
    | none =>
      rw [h.others key (habsent key hvalue), DurableStore.get_commit_ne _ (by simpa using hkey)]
      rfl
    | some value =>
      obtain ⟨raw', hraw', -⟩ := hopens key value hvalue
      rw [hraw']
      rfl
  · exact hopens
  · exact h.durable

theorem markerOpens_of_sealed (htrip : RoundTrip crypto)
    (h : Sealed crypto master encMarkerKey encMarkerPlaintext raw) :
    markerOpens crypto master raw = true := by
  obtain ⟨nonce, hseal⟩ := h
  rw [markerOpens, openValue_of_seal htrip hseal]
  exact beq_self_eq_true _

end Rows

section Alone
variable {α : Type} {t d : Nat} {inv F : Disk → Prop} {allowed : Database → Database → Prop}
variable {post : List Event → Disk → α → Prop} {h : List Event} {disk : Disk}

/-- Nothing else is running. -/
abbrev alone (t : Nat) (inv : Disk → Prop) : Setting FileSig Disk Chance where
  handle := fun disk o c => perform t disk o c
  rely := Eq
  inv := inv

theorem hold_alone (hapart : ∀ disk dir, F disk → F (disk.setDir d dir))
    (hinv : ∀ disk db db' holder, inv disk → F disk → disk.opened t d = some db →
      allowed db db' → inv (disk.setDir d ⟨some db', holder⟩)) :
    Hold (alone t inv) (fun _ _ => True) t d F allowed where
  handle := fun _ _ _ => rfl
  rely := by
    rintro s _ rfl
    exact .refl t s
  guar := fun _ _ _ _ => trivial
  known := by
    rintro s _ rfl hF
    exact hF
  apart := hapart
  inv := hinv

theorem safe_alone {o : Files.Op} {k : o.Ans → M α}
    (hsome : ∀ c, (Files.perform t disk o c).isSome = true)
    (hk : ∀ x c disk', Files.perform t disk o c = some (x, disk') →
      inv disk' ∧ (k x).Safe (alone t inv) (fun _ _ => True) post (⟨o, x⟩ :: h) disk') :
    (.perform (E := FileSig) o >>= k : M α).Safe (alone t inv) (fun _ _ => True) post h disk := by
  rw [Prog.safe_perform_bind]
  apply Prog.Safe.op
  rintro _ rfl hinv
  exact ⟨hsome, fun c x disk' hstep => ⟨trivial, hk x c disk' hstep⟩⟩

end Alone

section Scan
variable {crypto : StoreCrypto} {R : Setting FileSig Disk Chance}
variable {guar : List Event → Event → Prop} {t src : Nat} {F : Disk → Prop}
variable {post : List Event → Disk → Except MigrateError MigrateReport → Prop}
variable {h : List Event} {disk : Disk} {source db : Database} {path : String}
variable {key : Option H256} {dryRun : Bool}

/-- All rows are of known namespaces, and the counts are of all of them. -/
def Scanned (source : Database) (counts : List (String × Nat)) : Prop :=
  (∀ row ∈ rowsOf source, Known row) ∧ total counts = (rowsOf source).length

theorem scanned_of_scan {items : List (Except String (Bytes × Bytes))}
    {rows : List (Bytes × Bytes)} {counts : List (String × Nat)}
    (hitems : items = (rowsOf source).map .ok ∨
      ∃ n msg, items = ((rowsOf source).map .ok).take n ++ [.error msg])
    (hscan : scanRows [] [] items = .ok (rows, counts)) :
    rows = rowsOf source ∧ Scanned source counts := by
  obtain ⟨new, hnew, hrows, hknown, htotal⟩ := scanRows_ok hscan
  have heq : new = rowsOf source := by
    rcases hitems with rfl | ⟨n, msg, rfl⟩
    · exact (List.map_injective_iff.2 (fun _ _ => Except.ok.inj) hnew).symm
    · have hmem : (.error msg : Except String (Bytes × Bytes)) ∈ new.map .ok := by
        rw [← hnew]
        simp
      obtain ⟨row, -, hrow⟩ := List.mem_map.1 hmem
      cases hrow
  subst heq
  refine ⟨hrows, hknown, ?_⟩
  rw [htotal]
  simp [total]

/-- What a run does with an open plaintext source, up to the first row that is copied. -/
theorem Hold.migrateOpened (hold : Hold R guar t src F fun _ db' => Replayed source db')
    (hhas : Has F t src db disk) (hsame : Replayed source db)
    (hnone : source.get encMarkerKey = none)
    (hrefused : ∀ e h' disk', F disk' → disk'.dirs[src]? = some ⟨some db, none⟩ →
      post h' disk' (.error e))
    (hdry : ∀ counts h' disk', dryRun = true → Scanned source counts → F disk' →
      disk'.dirs[src]? = some ⟨some db, none⟩ →
        post h' disk' (.ok ⟨.plaintext, (rowsOf source).length, counts, true, none⟩))
    (hreal : ∀ master counts h' disk', dryRun = false → key = some master →
      Scanned source counts → Has F t src db disk' →
        (migrateRows crypto path master src (rowsOf source) counts).Safe R guar post h' disk') :
    (migrateOpened crypto path key dryRun src).Safe R guar post h disk := by
  have hclosed : ∀ e h' disk', Has F t src db disk' →
      (Files.close src >>= fun _ => (pure (.error e) : M (Except MigrateError MigrateReport))).Safe R
        guar post h' disk' :=
    fun e h' disk' hhas' => hold.close hhas' hsame fun h₂ disk₂ hF hdir => hrefused e _ _ hF hdir
  rw [Vault.migrateOpened]
  apply hold.get hhas
  intro x h₁ disk₁ hhas₁ hx
  rcases hx with rfl | ⟨msg, rfl⟩
  · rw [hsame.get, hnone]
    apply hold.iterator hhas₁
    intro items h₂ disk₂ hhas₂ hitems
    rw [hsame.rowsOf] at hitems
    cases hscan : scanRows [] [] items with
    | error e => exact hclosed e _ _ hhas₂
    | ok scanned =>
      obtain ⟨rows, counts⟩ := scanned
      obtain ⟨rfl, hscanned⟩ := scanned_of_scan hitems hscan
      cases dryRun with
      | true =>
        apply hold.close hhas₂ hsame
        exact fun h₃ disk₃ hF hdir => hdry _ _ _ rfl hscanned hF hdir
      | false =>
        cases key with
        | none => exact hclosed _ _ _ hhas₂
        | some master => exact hreal _ _ _ _ rfl rfl hscanned hhas₂
  · exact hclosed _ _ _ hhas₁

end Scan

section Names
variable {disk : Disk} {path name : String}

theorem names_newDir_ne (h : name ≠ path) (dir : Dir) :
    (disk.newDir path dir).names name = disk.names name :=
  Function.update_of_ne h _ _

theorem names_newDir_self (dir : Dir) :
    (disk.newDir path dir).names path = some disk.dirs.length :=
  Function.update_self _ _ _

theorem dirs_newDir_self (dir : Dir) :
    (disk.newDir path dir).dirs[disk.dirs.length]? = some dir :=
  List.getElem?_concat_length

theorem names_setName_ne (h : name ≠ path) (d : Option Nat) :
    (disk.setName path d).names name = disk.names name :=
  Function.update_of_ne h _ _

theorem names_setName_self (d : Option Nat) : (disk.setName path d).names path = d :=
  Function.update_self _ _ _

theorem append_ne_self {suffix : String} (h : suffix ≠ "") : path ++ suffix ≠ path := by
  intro heq
  have hempty : path ++ suffix = path ++ "" := by rw [heq, String.append_empty]
  exact h ((String.append_right_inj path).1 hempty)

theorem staging_ne (path : String) : path ++ ".migrating" ≠ path := append_ne_self (by decide)

theorem backup_ne (path stamp : String) : path ++ (".pre-encrypt-" ++ stamp) ≠ path := by
  apply append_ne_self
  intro heq
  have hlist := congrArg String.toList heq
  simp at hlist

theorem backup_ne_staging (path stamp : String) :
    path ++ (".pre-encrypt-" ++ stamp) ≠ path ++ ".migrating" := by
  intro heq
  have hlist := congrArg String.toList ((String.append_right_inj path).1 heq)
  simp at hlist

end Names

section Swap
variable {crypto : StoreCrypto} {path : String} {master : H256} {s t : Nat} {source db : Database}
variable {disk : Disk}

/-- The name leads to the source. -/
structure SourceAt (name : String) (s : Nat) (source : Database) (disk : Disk) : Prop where
  name : disk.names name = some s
  base : ∃ db holder, disk.dirs[s]? = some ⟨some db, holder⟩ ∧ Replayed source db

/-- The name leads to the sealed copy, which is closed. -/
structure CopyAt (crypto : StoreCrypto) (name : String) (master : H256) (source : Database) (e : Nat)
    (db : Database) (disk : Disk) : Prop where
  name : disk.names name = some e
  base : disk.dirs[e]? = some ⟨some db, none⟩
  migrated : Migrated crypto master source db

/-- What the path of a store leads to while it is being migrated. -/
inductive Stage (crypto : StoreCrypto) (path : String) (master : H256) (s : Nat)
    (source : Database) (disk : Disk) : Prop
  | source (h : SourceAt path s source disk)
  | between (hname : disk.names path = none)
    (hsealed : ∃ raw, Sealed crypto master encMarkerKey encMarkerPlaintext raw)
  | copied (e : Nat) (db : Database) (h : CopyAt crypto path master source e db disk)

/-- How a real run ends. -/
inductive Ended (crypto : StoreCrypto) (path : String) (master : H256) (s : Nat)
    (source : Database) (disk : Disk) : Except MigrateError MigrateReport → Prop
  | refused (e : MigrateError) (h : SourceAt path s source disk) :
    Ended crypto path master s source disk (.error e)
  | halfway (backup msg : String) (hname : disk.names path = none)
    (hbackup : SourceAt backup s source disk) :
    Ended crypto path master s source disk (.error (.io (path ++ ".migrating") msg))
  | migrated (counts : List (String × Nat)) (backup : String) (e : Nat) (db : Database)
    (hscanned : Scanned source counts) (hbackup : SourceAt backup s source disk)
    (hcopy : CopyAt crypto path master source e db disk) :
    Ended crypto path master s source disk
      (.ok ⟨.plaintext, (rowsOf source).length, counts, false, some backup⟩)

theorem SourceAt.stage (h : SourceAt path s source disk) :
    Stage crypto path master s source disk := .source h

theorem sourceAt_of_has (h : Has (fun disk => disk.names path = some s) t s db disk)
    (hsame : Replayed source db) : SourceAt path s source disk :=
  ⟨h.1, db, _, opened_eq_some.1 h.2, hsame⟩

/-- While the source is open, the run has it and knows where it is. -/
abbrev HasSource (path : String) (t s : Nat) (db : Database) : Disk → Prop :=
  Has (fun disk => disk.names path = some s) t s db

theorem hold_source {F : Disk → Prop} (hname : ∀ disk, F disk → disk.names path = some s)
    (hapart : ∀ disk dir, F disk → F (disk.setDir s dir)) :
    Hold (alone t (Stage crypto path master s source)) (fun _ _ => True) t s F
      fun _ db' => Replayed source db' := by
  apply hold_alone hapart
  intro disk db db' holder hinv hF hopen hsame
  have hlt := lt_of_dir (opened_eq_some.1 hopen)
  exact .source ⟨hname disk hF, db', holder, dirs_setDir_self hlt, hsame⟩

/-- While the staging store is open too. -/
def HasStaging (path staging : String) (t s e : Nat) (db : Database) (disk : Disk) : Prop :=
  HasSource path t s db disk ∧ disk.names staging = some e

theorem hold_staging {staging : String} {e : Nat} (hsame : Replayed source db) (hne : e ≠ s) :
    Hold (alone t (Stage crypto path master s source)) (fun _ _ => True) t e
      (HasStaging path staging t s e db) fun _ _ => True := by
  have hapart : ∀ disk dir, HasStaging path staging t s e db disk →
      HasStaging path staging t s e db (disk.setDir e dir) := by
    intro disk dir hhas
    refine ⟨⟨hhas.1.1, ?_⟩, hhas.2⟩
    rw [opened_eq_some, dirs_setDir_ne hne]
    exact opened_eq_some.1 hhas.1.2
  apply hold_alone hapart
  intro disk db₁ db₂ holder hinv hhas hopen _
  exact .source (sourceAt_of_has (hapart disk _ hhas).1 hsame)

end Swap

section Staging
variable {α : Type} {crypto : StoreCrypto} {path staging : String} {master : H256} {s t : Nat}
variable {source db : Database} {disk : Disk} {h : List Event}
variable {post : List Event → Disk → α → Prop}

theorem HasSource.newDir (hne : staging ≠ path) (hhas : HasSource path t s db disk) (dir : Dir) :
    HasSource path t s db (disk.newDir staging dir) := by
  refine ⟨(names_newDir_ne hne.symm dir).trans hhas.1, ?_⟩
  have hdir := opened_eq_some.1 hhas.2
  rw [opened_eq_some, dirs_newDir (lt_of_dir hdir), hdir]

/-- An operation beside the source. -/
theorem safe_beside (hsame : Replayed source db) {o : Files.Op} {k : o.Ans → M α}
    (hsome : ∀ c, (Files.perform t disk o c).isSome = true)
    (hk : ∀ x c disk', Files.perform t disk o c = some (x, disk') →
      HasSource path t s db disk' ∧
        (k x).Safe (alone t (Stage crypto path master s source)) (fun _ _ => True) post
          (⟨o, x⟩ :: h) disk') :
    (.perform (E := FileSig) o >>= k : M α).Safe (alone t (Stage crypto path master s source))
      (fun _ _ => True) post h disk := by
  apply safe_alone hsome
  intro x c disk' hstep
  obtain ⟨hhas, hsafe⟩ := hk x c disk' hstep
  exact ⟨.source (sourceAt_of_has hhas hsame), hsafe⟩

theorem safe_clear (hne : staging ≠ path) (hsame : Replayed source db)
    (hhas : HasSource path t s db disk) {k : Except MigrateError Unit → M α}
    (hk : ∀ r h' disk', HasSource path t s db disk' → (r = .ok () → disk'.names staging = none) →
      (k r).Safe (alone t (Stage crypto path master s source)) (fun _ _ => True) post h' disk') :
    (clearStaging staging >>= k).Safe (alone t (Stage crypto path master s source))
      (fun _ _ => True) post h disk := by
  rw [clearStaging, Prog.bind_assoc]
  apply safe_beside hsame (isSome_of_plain rfl t disk)
  intro found c₁ disk₁ hstep₁
  obtain ⟨rfl, rfl⟩ := perform_pathExists hstep₁
  refine ⟨hhas, ?_⟩
  cases hname : disk₁.names staging with
  | none => exact hk _ _ _ hhas fun _ => hname
  | some old =>
    simp only [Option.isSome_some, if_true]
    rw [removeDirAll, Prog.bind_assoc, Prog.bind_assoc]
    apply safe_beside hsame (isSome_of_plain rfl t disk₁)
    intro x c₂ disk₂ hstep₂
    have hhas₂ : HasSource path t s db disk₂ := by
      rcases perform_removeEntries hstep₂ with rfl | rfl
      · exact hhas
      · exact hhas.newDir hne {}
    refine ⟨hhas₂, ?_⟩
    cases x with
    | error e => exact hk _ _ _ hhas₂ fun hok => by cases hok
    | ok u =>
      dsimp only
      apply safe_beside hsame (isSome_of_plain rfl t disk₂)
      intro x c₃ disk₃ hstep₃
      rcases perform_removeDir hstep₃ with ⟨rfl, rfl⟩ | ⟨msg, rfl, rfl⟩
      · have hhas₃ : HasSource path t s db (disk₂.setName staging none) :=
          ⟨(names_setName_ne hne.symm none).trans hhas₂.1, hhas₂.2⟩
        exact ⟨hhas₃, hk _ _ _ hhas₃ fun _ => names_setName_self none⟩
      · exact ⟨hhas₂, hk _ _ _ hhas₂ fun hok => by cases hok⟩

/-- The staging store of a run whose source is closed or about to be. -/
structure Staged (crypto : StoreCrypto) (staging : String) (master : H256) (s : Nat)
    (source : Database) (e : Nat) (copy : Database) (disk : Disk) : Prop where
  apart : e ≠ s
  copy : CopyAt crypto staging master source e copy disk

theorem safe_build (hne : staging ≠ path) (hsame : Replayed source db)
    (hnone : source.get encMarkerKey = none) (hunmarked : Unmarked (rowsOf source))
    (hhas : HasSource path t s db disk) {k : Except MigrateError Unit → M α}
    (hk : ∀ r h' disk', HasSource path t s db disk' →
      (r = .ok () → ∃ e copy, Staged crypto staging master s source e copy disk') →
        (k r).Safe (alone t (Stage crypto path master s source)) (fun _ _ => True) post h' disk') :
    (buildStaging crypto staging master (rowsOf source) >>= k).Safe
      (alone t (Stage crypto path master s source)) (fun _ _ => True) post h disk := by
  rw [buildStaging, Prog.bind_assoc]
  apply safe_clear hne hsame hhas
  intro r h₁ disk₁ hhas₁ hcleared
  cases r with
  | error e => exact hk _ _ _ hhas₁ fun hok => by cases hok
  | ok u =>
    have hname := hcleared rfl
    dsimp only
    rw [Prog.bind_assoc, openStore, Prog.bind_assoc, openDb]
    apply safe_beside hsame (isSome_openDb disk₁ t staging true)
    intro x c disk₂ hstep
    cases perform_openDb hstep with
    | failed msg => exact ⟨hhas₁, hk _ _ _ hhas₁ fun hok => by cases hok⟩
    | began msg hcreate hname' =>
      exact ⟨hhas₁.newDir hne {}, hk _ _ _ (hhas₁.newDir hne {}) fun hok => by cases hok⟩
    | found d db' hname' hdir =>
      rw [hname] at hname'
      cases hname'
    | filled d hcreate hname' hdir =>
      rw [hname] at hname'
      cases hname'
    | created hcreate hname' =>
      have hapart : disk₁.dirs.length ≠ s := by
        have hlt := lt_of_dir (opened_eq_some.1 hhas₁.2)
        omega
      have hhas₂ := hhas₁.newDir hne ⟨some .empty, some t⟩
      have hstaging : Has (HasStaging path staging t s disk₁.dirs.length db) t disk₁.dirs.length
          .empty (disk₁.newDir staging ⟨some .empty, some t⟩) := by
        refine ⟨⟨hhas₂, names_newDir_self _⟩, ?_⟩
        rw [opened_eq_some]
        exact dirs_newDir_self _
      have hold : Hold (alone t (Stage crypto path master s source)) (fun _ _ => True) t
          disk₁.dirs.length (HasStaging path staging t s disk₁.dirs.length db) fun _ _ => True :=
        hold_staging hsame hapart
      refine ⟨hhas₂, ?_⟩
      dsimp only
      rw [Prog.bind_assoc]
      apply hold.checkOrInitEncMarker hstaging fun _ _ _ _ => ⟨fun _ _ => trivial, trivial, trivial⟩
      intro r db₁ h₃ disk₃ hhas₃ hchecked
      cases hchecked with
      | found raw hraw hopens => cases hraw
      | marked raw hempty hrows hsealed =>
        have hencrypted : Encrypted crypto master _ := encrypted_of_marked hrows hsealed
        dsimp only
        rw [Prog.pure_def, Prog.ret_bind]
        dsimp only
        rw [Prog.bind_assoc]
        apply hold.fillStaging ⟨fun _ _ => trivial, fun _ _ _ _ => trivial⟩ hunmarked hhas₃
          hencrypted
        intro r copy h₄ disk₄ hhas₄ hcopy hfilled
        rw [Prog.bind_assoc]
        apply hold.close hhas₄ trivial
        intro h₅ disk₅ hF hdir
        apply hk _ _ _ hF.1
        intro hok
        exact ⟨_, copy, hapart, hF.2, hdir, migrated_of_filled hnone hsealed (hfilled hok)⟩
      | _ =>
        dsimp only
        rw [Prog.bind_assoc]
        apply hold.close hhas₃ trivial
        exact fun h₄ disk₄ hF hdir => hk _ _ _ hF.1 fun hok => by cases hok

theorem safe_renames {e : Nat} {copy : Database} (hsource : SourceAt path s source disk)
    (hstaged : Staged crypto (path ++ ".migrating") master s source e copy disk)
    {k : Except MigrateError String → M α}
    (hrefused : ∀ e h' disk', SourceAt path s source disk' →
      (k (.error e)).Safe (alone t (Stage crypto path master s source)) (fun _ _ => True) post h'
        disk')
    (hhalfway : ∀ backup msg h' disk', disk'.names path = none → SourceAt backup s source disk' →
      (k (.error (.io (path ++ ".migrating") msg))).Safe
        (alone t (Stage crypto path master s source)) (fun _ _ => True) post h' disk')
    (hswapped : ∀ backup h' disk', SourceAt backup s source disk' →
      CopyAt crypto path master source e copy disk' →
        (k (.ok backup)).Safe (alone t (Stage crypto path master s source)) (fun _ _ => True) post
          h' disk') :
    (swap path (path ++ ".migrating") >>= k).Safe (alone t (Stage crypto path master s source))
      (fun _ _ => True) post h disk := by
  obtain ⟨hapart, hcopy⟩ := hstaged
  rw [swap, Prog.bind_assoc]
  apply safe_alone (isSome_of_plain rfl t disk)
  intro stamp c₁ disk₁ hstep₁
  cases perform_timestamp hstep₁
  refine ⟨.source hsource, ?_⟩
  rw [Prog.bind_assoc]
  apply safe_alone (isSome_of_plain rfl t disk)
  intro x c₂ disk₂ hstep₂
  rcases perform_rename hstep₂ with ⟨d, hd, rfl, rfl⟩ | ⟨msg, rfl, rfl⟩
  · rw [hsource.name] at hd
    cases hd
    have hnames : ∀ name, name ≠ path → name ≠ path ++ (".pre-encrypt-" ++ stamp) →
        ((disk.setName path none).setName (path ++ (".pre-encrypt-" ++ stamp)) (some s)).names
          name = disk.names name := by
      intro name hne hne'
      rw [names_setName_ne hne', names_setName_ne hne]
    have hpath : ((disk.setName path none).setName (path ++ (".pre-encrypt-" ++ stamp))
        (some s)).names path = none := by
      rw [names_setName_ne (backup_ne path stamp).symm, names_setName_self]
    have hbackup : SourceAt (path ++ (".pre-encrypt-" ++ stamp)) s source
        ((disk.setName path none).setName (path ++ (".pre-encrypt-" ++ stamp)) (some s)) :=
      ⟨names_setName_self _, hsource.base⟩
    obtain ⟨raw, -, hsealed⟩ := hcopy.migrated.marker
    refine ⟨.between hpath ⟨raw, hsealed⟩, ?_⟩
    dsimp only
    rw [Prog.bind_assoc]
    apply safe_alone (isSome_of_plain rfl t _)
    intro x c₃ disk₃ hstep₃
    rcases perform_rename hstep₃ with ⟨d, hd, rfl, rfl⟩ | ⟨msg, rfl, rfl⟩
    · rw [hnames _ (staging_ne path) (backup_ne_staging path stamp).symm, hcopy.name] at hd
      cases hd
      have hcopied : CopyAt crypto path master source e copy
          ((((disk.setName path none).setName (path ++ (".pre-encrypt-" ++ stamp))
            (some s)).setName (path ++ ".migrating") none).setName path (some e)) :=
        ⟨names_setName_self _, hcopy.base, hcopy.migrated⟩
      refine ⟨.copied e copy hcopied, hswapped _ _ _ ?_ hcopied⟩
      refine ⟨?_, hbackup.base⟩
      rw [names_setName_ne (backup_ne path stamp), names_setName_ne (backup_ne_staging path stamp)]
      exact hbackup.name
    · exact ⟨.between hpath ⟨raw, hsealed⟩, hhalfway _ _ _ _ hpath hbackup⟩
  · exact ⟨.source hsource, hrefused _ _ _ hsource⟩

/-- A real run, from the first row that it copies to its end. -/
theorem safe_rows {counts : List (String × Nat)} (hsame : Replayed source db)
    (hnone : source.get encMarkerKey = none) (hscanned : Scanned source counts)
    (hhas : HasSource path t s db disk) :
    (migrateRows crypto path master s (rowsOf source) counts).Safe
      (alone t (Stage crypto path master s source)) (fun _ _ => True)
      (fun _ disk' r => Ended crypto path master s source disk' r) h disk := by
  have hunmarked : Unmarked (rowsOf source) := by
    rintro ⟨key, value⟩ hrow rfl
    rw [mem_rowsOf.1 hrow] at hnone
    cases hnone
  rw [migrateRows]
  apply safe_build (staging_ne path) hsame hnone hunmarked hhas
  intro r h₁ disk₁ hhas₁ hstaged
  cases r with
  | error e =>
    have hold : Hold (alone t (Stage crypto path master s source)) (fun _ _ => True) t s
        (fun disk => disk.names path = some s) fun _ db' => Replayed source db' :=
      hold_source (fun _ h => h) fun _ _ h => h
    apply hold.close hhas₁ hsame
    intro h₂ disk₂ hname hdir
    exact .refused e ⟨hname, db, none, hdir, hsame⟩
  | ok u =>
    obtain ⟨e, copy, hstaged⟩ := hstaged rfl
    have hold : Hold (alone t (Stage crypto path master s source)) (fun _ _ => True) t s
        (fun disk => disk.names path = some s ∧
          Staged crypto (path ++ ".migrating") master s source e copy disk)
        fun _ db' => Replayed source db' := by
      apply hold_source (fun _ h => h.1)
      intro disk dir hF
      refine ⟨hF.1, hF.2.apart, hF.2.copy.name, ?_, hF.2.copy.migrated⟩
      rw [dirs_setDir_ne hF.2.apart.symm]
      exact hF.2.copy.base
    apply hold.close ⟨⟨hhas₁.1, hstaged⟩, hhas₁.2⟩ hsame
    intro h₂ disk₂ hF hdir
    apply safe_renames ⟨hF.1, db, none, hdir, hsame⟩ hF.2
    · exact fun e h₃ disk₃ hsource => .refused e hsource
    · exact fun backup msg h₃ disk₃ hname hbackup => .halfway backup msg hname hbackup
    · exact fun backup h₃ disk₃ hbackup hcopy => .migrated counts backup _ _ hscanned hbackup hcopy

end Staging

section Start
variable {crypto : StoreCrypto} {path : String} {s t : Nat} {holder : Option Nat}
variable {source : Database} {start disk : Disk} {h : List Event} {inv : Disk → Prop}
variable {post : List Event → Disk → Except MigrateError MigrateReport → Prop}
variable {key : Option H256} {dryRun : Bool}

/-- A run opens its source or it changes nothing. -/
theorem safe_migrateEncrypt (hname : start.names path = some s)
    (hdir : start.dirs[s]? = some ⟨some source, holder⟩) (hinv : inv start)
    (hkey : ∀ h', key = none → dryRun = false → post h' start (.error .keyRequired))
    (hunopened : ∀ msg h', post h' start (.error (.db msg)))
    (hopened : ∀ h', inv (start.write t s (source.commit [])) ∧
      (migrateOpened crypto path key dryRun s).Safe (alone t inv) (fun _ _ => True) post h'
        (start.write t s (source.commit []))) :
    (migrateEncrypt crypto path key dryRun).Safe (alone t inv) (fun _ _ => True) post h start := by
  rw [migrateEncrypt]
  apply safe_alone (isSome_of_plain rfl t start)
  intro found c₁ disk₁ hstep₁
  obtain ⟨rfl, rfl⟩ := perform_pathExists hstep₁
  refine ⟨hinv, ?_⟩
  rw [hname]
  simp only [Option.isSome_some, if_true]
  split
  · rename_i hnokey
    simp only [Bool.and_eq_true, Option.isNone_iff_eq_none, Bool.not_eq_true'] at hnokey
    exact hkey _ hnokey.1 hnokey.2
  · apply safe_alone (isSome_openDb disk₁ t path false)
    intro x c₂ disk₂ hstep₂
    cases perform_openDb hstep₂ with
    | failed msg => exact ⟨hinv, hunopened _ _⟩
    | found d db hname' hdir' =>
      rw [hname] at hname'
      cases hname'
      rw [hdir] at hdir'
      cases hdir'
      exact hopened _
    | began msg hcreate => cases hcreate
    | created hcreate => cases hcreate
    | filled d hcreate => cases hcreate

/-- A plaintext store that is at a path; another task may have it open. -/
structure PlaintextAt (path : String) (s : Nat) (source : Database) (disk : Disk) : Prop where
  name : disk.names path = some s
  base : ∃ holder, disk.dirs[s]? = some ⟨some source, holder⟩
  unmarked : source.get encMarkerKey = none

/-- Nothing was written: at most the log of one database was replayed. -/
structure Untouched (start : Disk) (s : Nat) (source : Database) (disk : Disk) : Prop where
  names : disk.names = start.names
  length : disk.dirs.length = start.dirs.length
  others : ∀ d, d ≠ s → disk.dirs[d]? = start.dirs[d]?
  base : ∃ db holder, disk.dirs[s]? = some ⟨some db, holder⟩ ∧ Replayed source db

theorem untouched_start (hdir : start.dirs[s]? = some ⟨some source, holder⟩) :
    Untouched start s source start :=
  ⟨rfl, rfl, fun _ _ => rfl, source, holder, hdir, .inl rfl⟩

theorem Untouched.setDir (h : Untouched start s source disk) {db : Database}
    (hsame : Replayed source db) (holder : Option Nat) :
    Untouched start s source (disk.setDir s ⟨some db, holder⟩) := by
  obtain ⟨db', holder', hdir, -⟩ := h.base
  constructor
  · exact h.names
  · rw [Disk.setDir, List.length_set, h.length]
  · intro d hne
    rw [dirs_setDir_ne hne.symm, h.others d hne]
  · exact ⟨db, holder, dirs_setDir_self (lt_of_dir hdir), hsame⟩

theorem hold_untouched : Hold (alone t (Untouched start s source)) (fun _ _ => True) t s
    (fun _ => True) fun _ db' => Replayed source db' := by
  apply hold_alone
  · exact fun _ _ _ => trivial
  · exact fun disk db db' holder hinv _ _ hsame => hinv.setDir hsame holder

/-- A dry run, and a run that meets a row that is not known, write nothing. -/
theorem safe_untouched (hplain : PlaintextAt path s source start)
    (hlook : dryRun = true ∨ ∃ row ∈ rowsOf source, ¬ Known row) :
    (migrateEncrypt crypto path key dryRun).Safe (alone t (Untouched start s source))
      (fun _ _ => True) (fun _ _ r => (∃ e, r = .error e) ∨ ∃ counts, Scanned source counts ∧
        r = .ok ⟨.plaintext, (rowsOf source).length, counts, true, none⟩) h start := by
  obtain ⟨hname, ⟨holder, hdir⟩, hnone⟩ := hplain
  have hstart := untouched_start hdir
  apply safe_migrateEncrypt hname hdir hstart
  · exact fun h' _ _ => .inl ⟨_, rfl⟩
  · exact fun msg h' => .inl ⟨_, rfl⟩
  · intro h'
    have hhas : Has (fun _ => True) t s (source.commit []) (start.write t s (source.commit [])) := by
      refine ⟨trivial, ?_⟩
      rw [opened_eq_some]
      exact dirs_setDir_self (lt_of_dir hdir)
    refine ⟨hstart.setDir (.inr rfl) _, ?_⟩
    apply hold_untouched.migrateOpened hhas (.inr rfl) hnone
    · exact fun e h₁ disk₁ _ _ => .inl ⟨e, rfl⟩
    · exact fun counts h₁ disk₁ _ hscanned _ _ => .inr ⟨counts, hscanned, rfl⟩
    · intro master counts h₁ disk₁ hreal _ hscanned
      rcases hlook with hdry | ⟨row, hrow, hunknown⟩
      · rw [hdry] at hreal
        cases hreal
      · exact absurd (hscanned.1 row hrow) hunknown

/-- A real run. -/
theorem safe_real {master : H256} (hplain : PlaintextAt path s source start) :
    (migrateEncrypt crypto path (some master) false).Safe
      (alone t (Stage crypto path master s source)) (fun _ _ => True)
      (fun _ disk' r => Ended crypto path master s source disk' r) h start := by
  obtain ⟨hname, ⟨holder, hdir⟩, hnone⟩ := hplain
  have hstart : SourceAt path s source start := ⟨hname, source, holder, hdir, .inl rfl⟩
  apply safe_migrateEncrypt hname hdir (.source hstart)
  · exact fun h' hkey => by cases hkey
  · exact fun msg h' => .refused _ hstart
  · intro h'
    have hopened : (start.write t s (source.commit [])).dirs[s]? =
        some ⟨some (source.commit []), some t⟩ := dirs_setDir_self (lt_of_dir hdir)
    have hhas : HasSource path t s (source.commit []) (start.write t s (source.commit [])) :=
      ⟨hname, opened_eq_some.2 hopened⟩
    have hold : Hold (alone t (Stage crypto path master s source)) (fun _ _ => True) t s
        (fun disk => disk.names path = some s) fun _ db' => Replayed source db' :=
      hold_source (fun _ h => h) fun _ _ h => h
    refine ⟨.source (sourceAt_of_has hhas (.inr rfl)), ?_⟩
    apply hold.migrateOpened hhas (.inr rfl) hnone
    · exact fun e h₁ disk₁ hname₁ hdir₁ => .refused e ⟨hname₁, _, none, hdir₁, .inr rfl⟩
    · exact fun counts h₁ disk₁ hdry => by cases hdry
    · intro master' counts h₁ disk₁ _ hkey hscanned hhas₁
      cases hkey
      exact safe_rows (.inr rfl) hnone hscanned hhas₁

end Start
end Gateway.Vault
