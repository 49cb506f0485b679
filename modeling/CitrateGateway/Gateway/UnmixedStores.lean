import CitrateGateway.Gateway.HeldStore

/-!
# Plaintext and ciphertext never mix

Processes that open stores, write through them and migrate them keep every database on the disk
intact, whatever keys they use and wherever they are cut off. A store that is marked under another
key, and one that holds plaintext, is refused without a row of it being written.
-/

namespace Gateway.Vault
set_option autoImplicit false
open Words Effects Durable Files
open Effects.System (trace Transition Sharing)

section Shared
variable {α : Type} {crypto : StoreCrypto} {start disk : Disk} {t d : Nat} {db : Database}
variable {guar : List Event → Event → Prop} {post : List Event → Disk → α → Prop}
variable {h : List Event} {master : H256}

/-- What a store may become under the protocol. -/
inductive Next (crypto : StoreCrypto) (db : Database) : Database → Prop
  | same : Next crypto db db
  | replayed : Next crypto db (db.commit [])
  | marking (master : H256) (db' : Database)
      (h : db'.All fun key value => key = encMarkerKey ∧ SealedUnder crypto master key value) :
      Next crypto db db'
  | encrypted (master : H256) (db' : Database) (h : Encrypted crypto master db') :
      Next crypto db db'

theorem Next.intact {old : Option Database} {db' : Database} (hnext : Next crypto db db')
    (h : Intact crypto old db) : Intact crypto old db' := by
  cases hnext with
  | same => exact h
  | replayed => exact h.commit_nil
  | marking master db' hmarking => exact .marking master hmarking
  | encrypted master db' hdb => exact .encrypted master hdb

/-- A task that may have another database open besides. -/
def Holding (t : Nat) (held : Option (Nat × Database)) (disk : Disk) : Prop :=
  ∀ p ∈ held, disk.opened t p.1 = some p.2

theorem Holding.undisturbed {held : Option (Nat × Database)} {disk' : Disk}
    (h : Holding t held disk) (hrely : Undisturbed t disk disk') : Holding t held disk' :=
  fun p hp => hrely.opened (h p hp)

/-- In a run of stores, a task that holds a database follows the rules. -/
theorem hold_of_open
    (hguar : ∀ h (o : Files.Op) (x : o.Ans), Op.inspects d o = true → guar h ⟨o, x⟩)
    {held : Option (Nat × Database)} (hapart : ∀ p ∈ held, p.1 ≠ d) :
    Hold ((sharing crypto start).setting t) guar t d (Holding t held) (Next crypto) := by
  constructor
  · exact fun disk o c => rfl
  · exact fun s s' hrely => hrely
  · exact hguar
  · exact fun s s' hrely hheld => hheld.undisturbed hrely
  · intro disk dir hheld p hp
    apply keeps_setDir d dir p.1 p.2 _ (hheld p hp)
    exact fun heq => hapart p hp (Option.some.inj heq)
  · intro disk db db' holder hinv hheld hopen hnext
    apply Clean.setDir hinv
    intro db₁ hbase
    cases hbase
    exact hnext.intact (Clean.opened hinv hopen)

theorem mayWrite_of_open (hguar : ∀ h e, guar h e) :
    MayWrite crypto master guar d (Next crypto) where
  guar := hguar
  allowed := fun _ _ _ h => .encrypted master _ h

theorem Sealed.marker {raw : Bytes}
    (h : Sealed crypto master encMarkerKey encMarkerPlaintext raw) :
    SealedUnder crypto master encMarkerKey raw := by
  obtain ⟨nonce, hseal⟩ := h
  exact ⟨nonce, encMarkerPlaintext, hseal, fun _ => rfl⟩

theorem encrypted_of_marked {raw : Bytes} (hrows : rowsOf db = [])
    (h : Sealed crypto master encMarkerKey encMarkerPlaintext raw) :
    Encrypted crypto master (db.commit [⟨encMarkerKey, raw⟩]) where
  marker := by
    rw [DurableStore.commit]
    simp
  rows := (all_of_rowsOf_nil hrows _).commit (by simpa using h.marker)

theorem mayMark_of_open (hguar : ∀ h e, guar h e) :
    MayMark crypto master guar d (Next crypto) db := by
  intro hnone hrows raw hsealed
  have hmarking : (db.put ⟨encMarkerKey, raw⟩).All fun key value =>
      key = encMarkerKey ∧ SealedUnder crypto master key value :=
    (all_of_rowsOf_nil hrows _).put ⟨rfl, hsealed.marker⟩
  refine ⟨fun h x => hguar _ _, .marking master _ hmarking, ?_⟩
  exact .encrypted master _ (encrypted_of_marked hrows hsealed)

/-- A marker that opens is under the key it opens with. -/
theorem master_of_markerOpens (haead : Aead crypto) {master' : H256} {raw : Bytes}
    (hsealed : SealedUnder crypto master' encMarkerKey raw)
    (hopens : markerOpens crypto master raw = true) : master = master' := by
  obtain ⟨nonce, plaintext, hseal, -⟩ := hsealed
  by_contra hne
  rw [markerOpens, openValue_other_key haead hne hseal] at hopens
  cases hopens

/-- The log was replayed when the database was opened. -/
theorem get_of_replayed (hpending : db.pending = []) (key : Bytes) :
    db.get key = db.durable.dlookup key := by
  rw [DurableStore.get, hpending]
  rfl

/-- A store whose marker opened is encrypted under that key. -/
theorem encrypted_of_found (haead : Aead crypto) (hlegacy : Legacy start)
    (hintact : Intact crypto (Disk.old start d) db) (hpending : db.pending = []) {raw : Bytes}
    (hraw : db.get encMarkerKey = some raw) (hopens : markerOpens crypto master raw = true) :
    Encrypted crypto master db := by
  have hdurable : (db.durable.dlookup encMarkerKey).isSome = true := by
    rw [← get_of_replayed hpending, hraw]
    rfl
  cases hintact with
  | marking master' h =>
    have hsame := master_of_markerOpens haead (h.get hraw).2 hopens
    rw [hsame]
    exact ⟨hdurable, fun row hrow => (h row hrow).2⟩
  | plaintext legacy hold h =>
    obtain ⟨dir, hdir, hbase⟩ := Option.bind_eq_some_iff.1 hold
    have hunmarked : legacy.All fun key _ => key ≠ encMarkerKey := hlegacy d dir legacy hdir hbase
    exact (hunmarked _ (h.get hraw) rfl).elim
  | encrypted master' h =>
    have hmarker : SealedUnder crypto master' encMarkerKey raw := h.rows.get hraw
    have hsame := master_of_markerOpens haead hmarker hopens
    rw [hsame]
    exact h

theorem Holding.newDir {held : Option (Nat × Database)} (h : Holding t held disk) (path : String)
    (dir : Dir) : Holding t held (disk.newDir path dir) :=
  h.undisturbed (undisturbed_newDir path dir)

/-- Operations on names and directories as a whole, but for the opening of a database. -/
def Op.isPlain : Files.Op → Bool
  | .pathExists _ | .removeEntries _ | .removeDir _ | .rename _ _ | .timestamp => true
  | _ => false

/-- A plain operation leaves every directory there is as it was. -/
theorem dirs_of_plain {o : Files.Op} {c : Chance} {x : o.Ans} {disk' : Disk}
    (hplain : Op.isPlain o = true) (hstep : Files.perform t disk o c = some (x, disk')) :
    ∀ (d : Nat) (dir : Dir), disk.dirs[d]? = some dir → disk'.dirs[d]? = some dir := by
  intro d dir hdir
  cases o with
  | pathExists path => cases hstep; exact hdir
  | timestamp => cases hstep; exact hdir
  | removeEntries path =>
    rcases perform_removeEntries hstep with rfl | rfl
    · exact hdir
    · rw [dirs_newDir (lt_of_dir hdir), hdir]
  | removeDir path =>
    rcases perform_removeDir hstep with ⟨-, rfl⟩ | ⟨msg, -, rfl⟩
    · exact hdir
    · exact hdir
  | rename «from» «to» =>
    rcases perform_rename hstep with ⟨e, -, -, rfl⟩ | ⟨msg, -, rfl⟩
    · exact hdir
    · exact hdir
  | _ => cases hplain

theorem isSome_of_plain {o : Files.Op} (hplain : Op.isPlain o = true) (t : Nat) (disk : Disk)
    (c : Chance) : (Files.perform t disk o c).isSome = true := by
  cases o with
  | removeEntries path =>
    simp only [Files.perform]
    split <;> rfl
  | removeDir path =>
    simp only [Files.perform]
    split <;> rfl
  | pathExists | timestamp | rename => rfl
  | _ => cases hplain

theorem isPut_of_plain {o : Files.Op} (hplain : Op.isPlain o = true) : o.isPut = false := by
  cases o with
  | put | writeBatch => cases hplain
  | _ => rfl

variable {held : Option (Nat × Database)}

theorem safe_plain (hguar : ∀ h e, guar h e) {o : Files.Op} {k : o.Ans → M α}
    (hplain : Op.isPlain o = true) (hheld : Holding t held disk)
    (hk : ∀ x h' disk', Holding t held disk' →
      (k x).Safe ((sharing crypto start).setting t) guar post h' disk') :
    (.perform (E := FileSig) o >>= k : M α).Safe ((sharing crypto start).setting t) guar post h
      disk := by
  rw [Prog.safe_perform_bind]
  apply Prog.Safe.op
  intro disk₁ hrely hinv
  refine ⟨isSome_of_plain hplain t disk₁, ?_⟩
  intro c x disk₂ hstep
  refine ⟨hguar _ _, Clean.perform hinv hstep (isPut_of_plain hplain), hk _ _ _ ?_⟩
  intro p hp
  have hdir := opened_eq_some.1 (hheld.undisturbed hrely p hp)
  exact opened_eq_some.2 (dirs_of_plain hplain hstep _ _ hdir)

/-- A database that was just opened: its log was replayed, and it is none that the task had. -/
structure Fresh (crypto : StoreCrypto) (start : Disk) (t : Nat) (held : Option (Nat × Database))
    (d : Nat) (db : Database) (disk : Disk) : Prop where
  has : Has (Holding t held) t d db disk
  apart : ∀ p ∈ held, p.1 ≠ d
  intact : Intact crypto (Disk.old start d) db
  replayed : db.pending = []

theorem holding_write {dir : Dir} (hdir : disk.dirs[d]? = some dir) (hfree : dir.holder = none)
    (hheld : Holding t held disk) (db : Database) :
    Has (Holding t held) t d db (disk.write t d db) ∧ ∀ p ∈ held, p.1 ≠ d := by
  have hapart : ∀ p ∈ held, p.1 ≠ d := by
    rintro p hp rfl
    have hopen := opened_eq_some.1 (hheld p hp)
    rw [hdir] at hopen
    cases hopen
    cases hfree
  refine ⟨⟨fun p hp => ?_, ?_⟩, hapart⟩
  · apply keeps_setDir d _ p.1 p.2 _ (hheld p hp)
    exact fun heq => hapart p hp (Option.some.inj heq)
  · rw [opened_eq_some]
    exact dirs_setDir_self (lt_of_dir hdir)

theorem fresh_of_opening {path : String} {createIfMissing : Bool} {disk' : Disk}
    (hinv : Clean crypto start disk) (hheld : Holding t held disk)
    (hopening : Opening t disk path createIfMissing (.ok d) disk') :
    ∃ db, Fresh crypto start t held d db disk' := by
  cases hopening with
  | created hcreate hname =>
    refine ⟨.empty, ⟨hheld.newDir _ _, ?_⟩, ?_, intact_empty _, rfl⟩
    · rw [opened_eq_some, Disk.newDir]
      exact List.getElem?_concat_length
    · rintro p hp heq
      have hlt := lt_of_dir (opened_eq_some.1 (hheld p hp))
      omega
  | found d db hname hdir =>
    obtain ⟨hhas, hapart⟩ := holding_write hdir rfl hheld (db.commit [])
    exact ⟨_, hhas, hapart, (hinv d _ db hdir rfl).commit_nil, rfl⟩
  | filled d hcreate hname hdir =>
    obtain ⟨hhas, hapart⟩ := holding_write hdir rfl hheld .empty
    exact ⟨_, hhas, hapart, intact_empty _, rfl⟩

theorem holding_of_opening_error {path msg : String} {createIfMissing : Bool} {disk' : Disk}
    (hheld : Holding t held disk)
    (hopening : Opening t disk path createIfMissing (.error msg) disk') :
    Holding t held disk' := by
  cases hopening with
  | failed msg => exact hheld
  | began msg hcreate hname => exact hheld.newDir _ _

theorem safe_openDb (hguar : ∀ h e, guar h e) {path : String} {createIfMissing : Bool}
    {k : Except String Nat → M α} (hheld : Holding t held disk)
    (herror : ∀ msg h' disk', Holding t held disk' →
      (k (.error msg)).Safe ((sharing crypto start).setting t) guar post h' disk')
    (hok : ∀ d db h' disk', Fresh crypto start t held d db disk' →
      (k (.ok d)).Safe ((sharing crypto start).setting t) guar post h' disk') :
    (Files.openDb path createIfMissing >>= k).Safe ((sharing crypto start).setting t) guar post h
      disk := by
  rw [Files.openDb, Prog.safe_perform_bind]
  apply Prog.Safe.op
  intro disk₁ hrely hinv
  have hheld₁ := hheld.undisturbed hrely
  refine ⟨isSome_openDb disk₁ t path createIfMissing, ?_⟩
  intro c x disk₂ hstep
  have hperform : Files.perform t disk₁ (.openDb path createIfMissing) c = some (x, disk₂) := hstep
  refine ⟨hguar _ _, Clean.perform hinv hperform rfl, ?_⟩
  have hopening := perform_openDb hperform
  cases x with
  | error msg => exact herror msg _ _ (holding_of_opening_error hheld₁ hopening)
  | ok d =>
    obtain ⟨db, hfresh⟩ := fresh_of_opening hinv hheld₁ hopening
    exact hok d db _ _ hfresh

/-- A store that was opened is encrypted under the key it was opened with. -/
theorem safe_openStore (haead : Aead crypto) (hlegacy : Legacy start)
    (hguar : ∀ h e, guar h e) {path : String} {k : Except StoreError Store → M α}
    (hheld : Holding t held disk)
    (herror : ∀ e h' disk', Holding t held disk' →
      (k (.error e)).Safe ((sharing crypto start).setting t) guar post h' disk')
    (hok : ∀ d db h' disk', Has (Holding t held) t d db disk' → (∀ p ∈ held, p.1 ≠ d) →
      Encrypted crypto master db →
        (k (.ok ⟨d, master⟩)).Safe ((sharing crypto start).setting t) guar post h' disk') :
    (openStore crypto path master >>= k).Safe ((sharing crypto start).setting t) guar post h
      disk := by
  rw [openStore, Prog.bind_assoc]
  apply safe_openDb hguar hheld
  · intro msg h' disk' hheld'
    exact herror _ _ _ hheld'
  · intro d db h' disk' hfresh
    have hold : Hold ((sharing crypto start).setting t) guar t d (Holding t held) (Next crypto) :=
      hold_of_open (fun _ _ _ _ => hguar _ _) hfresh.apart
    dsimp only
    rw [Prog.bind_assoc]
    apply hold.checkOrInitEncMarker hfresh.has (mayMark_of_open hguar)
    intro r db' h₁ disk₁ hhas hchecked
    cases r with
    | error e =>
      dsimp only
      rw [Prog.bind_assoc]
      apply hold.close hhas .same
      intro h₂ disk₂ hheld₂ hdir
      exact herror _ _ _ hheld₂
    | ok u =>
      apply hok _ _ _ _ hhas hfresh.apart
      cases hchecked with
      | found raw hraw hopens =>
        exact encrypted_of_found haead hlegacy hfresh.intact hfresh.replayed hraw hopens
      | marked raw hnone hrows hsealed => exact encrypted_of_marked hrows hsealed

/-- A process that opens a store and writes to it is safe. -/
theorem safe_serve (haead : Aead crypto) (hlegacy : Legacy start) (hguar : ∀ h e, guar h e)
    {path : String} {writes : List Write} {post : List Event → Disk → Outcome → Prop}
    (hpost : ∀ h disk r, post h disk r) :
    (Job.prog crypto (.serve path master writes)).Safe ((sharing crypto start).setting t) guar post
      h disk := by
  have hheld : Holding t none disk := nofun
  rw [Job.prog, serve, Prog.bind_assoc]
  apply safe_openStore haead hlegacy hguar hheld
  · exact fun e h' disk' _ => hpost _ _ _
  · intro d db h' disk' hhas hapart hdb
    have hold : Hold ((sharing crypto start).setting t) guar t d (Holding t none) (Next crypto) :=
      hold_of_open (fun _ _ _ _ => hguar _ _) hapart
    dsimp only
    rw [Prog.bind_assoc]
    apply hold.applyWrites (mayWrite_of_open hguar) hhas hdb
    intro db' h₁ disk₁ hhas₁ hdb₁
    rw [Prog.bind_assoc]
    apply hold.close hhas₁ .same
    exact fun h₂ disk₂ _ _ => hpost _ _ _

theorem safe_clearStaging (hguar : ∀ h e, guar h e) {staging : String}
    {k : Except MigrateError Unit → M α} (hheld : Holding t held disk)
    (hk : ∀ r h' disk', Holding t held disk' →
      (k r).Safe ((sharing crypto start).setting t) guar post h' disk') :
    (clearStaging staging >>= k).Safe ((sharing crypto start).setting t) guar post h disk := by
  rw [clearStaging, Prog.bind_assoc]
  apply safe_plain hguar rfl hheld
  intro found h₁ disk₁ hheld₁
  cases found with
  | false => exact hk _ _ _ hheld₁
  | true =>
    simp only [if_true]
    rw [removeDirAll, Prog.bind_assoc, Prog.bind_assoc]
    apply safe_plain hguar rfl hheld₁
    intro x h₂ disk₂ hheld₂
    cases x with
    | error e => exact hk _ _ _ hheld₂
    | ok u =>
      dsimp only
      apply safe_plain hguar rfl hheld₂
      intro x h₃ disk₃ hheld₃
      cases x with
      | error e => exact hk _ _ _ hheld₃
      | ok u => exact hk _ _ _ hheld₃

theorem safe_buildStaging (haead : Aead crypto) (hlegacy : Legacy start)
    (hguar : ∀ h e, guar h e) {staging : String} {rows : List (Bytes × Bytes)}
    (hrows : Unmarked rows) {k : Except MigrateError Unit → M α} (hheld : Holding t held disk)
    (hk : ∀ r h' disk', Holding t held disk' →
      (k r).Safe ((sharing crypto start).setting t) guar post h' disk') :
    (buildStaging crypto staging master rows >>= k).Safe ((sharing crypto start).setting t) guar
      post h disk := by
  rw [buildStaging, Prog.bind_assoc]
  apply safe_clearStaging hguar hheld
  intro r h₁ disk₁ hheld₁
  cases r with
  | error e => exact hk _ _ _ hheld₁
  | ok u =>
    dsimp only
    rw [Prog.bind_assoc]
    apply safe_openStore haead hlegacy hguar hheld₁
    · exact fun e h₂ disk₂ hheld₂ => hk _ _ _ hheld₂
    · intro d db h₂ disk₂ hhas hapart hdb
      have hold : Hold ((sharing crypto start).setting t) guar t d (Holding t held)
          (Next crypto) := hold_of_open (fun _ _ _ _ => hguar _ _) hapart
      dsimp only
      rw [Prog.bind_assoc]
      apply hold.fillStaging (mayWrite_of_open hguar) hrows hhas hdb
      intro r' db' h₃ disk₃ hhas₃ hdb₃ hfilled
      rw [Prog.bind_assoc]
      apply hold.close hhas₃ .same
      exact fun h₄ disk₄ hheld₄ hdir => hk _ _ _ hheld₄

theorem safe_swap (hguar : ∀ h e, guar h e) {path staging : String}
    {k : Except MigrateError String → M α}
    (hk : ∀ r h' disk', (k r).Safe ((sharing crypto start).setting t) guar post h' disk') :
    (swap path staging >>= k).Safe ((sharing crypto start).setting t) guar post h disk := by
  have hheld : ∀ disk, Holding t none disk := fun _ => nofun
  rw [swap, Prog.bind_assoc]
  apply safe_plain hguar rfl (hheld disk)
  intro stamp h₁ disk₁ hheld₁
  rw [Prog.bind_assoc]
  apply safe_plain hguar rfl hheld₁
  intro x h₂ disk₂ hheld₂
  cases x with
  | error e => exact hk _ _ _
  | ok u =>
    dsimp only
    rw [Prog.bind_assoc]
    apply safe_plain hguar rfl hheld₂
    intro x h₃ disk₃ hheld₃
    cases x with
    | error e => exact hk _ _ _
    | ok u => exact hk _ _ _

theorem unmarked_of_scan {items : List (Except String (Bytes × Bytes))}
    {rows : List (Bytes × Bytes)} {counts : List (String × Nat)}
    (hscan : scanRows [] [] items = .ok (rows, counts)) : Unmarked rows := by
  obtain ⟨new, -, rfl, hknown, -⟩ := scanRows_ok hscan
  intro row hrow heq
  obtain ⟨ns, hns⟩ := hknown row hrow
  rw [heq, checkKnownRow_marker] at hns
  cases hns

theorem safe_migrateRows (haead : Aead crypto) (hlegacy : Legacy start) (hguar : ∀ h e, guar h e)
    {path : String} {rows : List (Bytes × Bytes)} {counts : List (String × Nat)}
    (hrows : Unmarked rows) {src : Nat} {k : Except MigrateError MigrateReport → M α}
    (hhas : Has (Holding t none) t src db disk)
    (hk : ∀ r h' disk', (k r).Safe ((sharing crypto start).setting t) guar post h' disk') :
    (migrateRows crypto path master src rows counts >>= k).Safe ((sharing crypto start).setting t)
      guar post h disk := by
  have hold : Hold ((sharing crypto start).setting t) guar t src (Holding t none) (Next crypto) :=
    hold_of_open (fun _ _ _ _ => hguar _ _) nofun
  have hheld : Holding t (some (src, db)) disk := by
    rintro p hp
    cases hp
    exact hhas.2
  rw [migrateRows, Prog.bind_assoc]
  apply safe_buildStaging haead hlegacy hguar hrows hheld
  intro r h₁ disk₁ hheld₁
  have hhas₁ : Has (Holding t none) t src db disk₁ := ⟨nofun, hheld₁ _ rfl⟩
  cases r with
  | error e =>
    dsimp only
    rw [Prog.bind_assoc]
    apply hold.close hhas₁ .same
    exact fun h₂ disk₂ _ _ => hk _ _ _
  | ok u =>
    dsimp only
    rw [Prog.bind_assoc]
    apply hold.close hhas₁ .same
    intro h₂ disk₂ _ _
    rw [Prog.bind_assoc]
    apply safe_swap hguar
    intro r' h₃ disk₃
    cases r' with
    | error e => exact hk _ _ _
    | ok backup => exact hk _ _ _

theorem safe_migrateOpened (haead : Aead crypto) (hlegacy : Legacy start)
    (hguar : ∀ h e, guar h e) {path : String} {key : Option H256} {dryRun : Bool} {src : Nat}
    {k : Except MigrateError MigrateReport → M α} (hhas : Has (Holding t none) t src db disk)
    (hk : ∀ r h' disk', (k r).Safe ((sharing crypto start).setting t) guar post h' disk') :
    (migrateOpened crypto path key dryRun src >>= k).Safe ((sharing crypto start).setting t) guar
      post h disk := by
  have hold : Hold ((sharing crypto start).setting t) guar t src (Holding t none) (Next crypto) :=
    hold_of_open (fun _ _ _ _ => hguar _ _) nofun
  have hclosed : ∀ r h' disk', Has (Holding t none) t src db disk' →
      (Files.close src >>= fun _ => k r).Safe ((sharing crypto start).setting t) guar post h'
        disk' := fun r h' disk' hhas' => hold.close hhas' .same fun h₂ disk₂ _ _ => hk _ _ _
  rw [migrateOpened, Prog.bind_assoc]
  apply hold.get hhas
  intro x h₁ disk₁ hhas₁ hx
  cases x with
  | error e => exact hclosed _ _ _ hhas₁
  | ok found =>
    cases found with
    | some raw => exact hclosed _ _ _ hhas₁
    | none =>
      dsimp only
      rw [Prog.bind_assoc]
      apply hold.iterator hhas₁
      intro items h₂ disk₂ hhas₂ hitems
      cases hscan : scanRows [] [] items with
      | error e => exact hclosed _ _ _ hhas₂
      | ok scanned =>
        obtain ⟨rows, counts⟩ := scanned
        cases dryRun with
        | true => exact hclosed _ _ _ hhas₂
        | false =>
          cases key with
          | none => exact hclosed _ _ _ hhas₂
          | some master =>
            exact safe_migrateRows haead hlegacy hguar (unmarked_of_scan hscan) hhas₂ hk

/-- A migration is safe, dry or real. -/
theorem safe_migrate (haead : Aead crypto) (hlegacy : Legacy start) (hguar : ∀ h e, guar h e)
    {path : String} {key : Option H256} {dryRun : Bool}
    {post : List Event → Disk → Outcome → Prop} (hpost : ∀ h disk r, post h disk r) :
    (Job.prog crypto (.migrate path key dryRun)).Safe ((sharing crypto start).setting t) guar post
      h disk := by
  have hheld : Holding t none disk := nofun
  rw [Job.prog, migrateEncrypt, Prog.bind_assoc]
  apply safe_plain hguar rfl hheld
  intro found h₁ disk₁ hheld₁
  cases found with
  | false => exact hpost _ _ _
  | true =>
    simp only [if_true]
    split
    · exact hpost _ _ _
    · rw [Prog.bind_assoc]
      apply safe_openDb hguar hheld₁
      · exact fun msg h₂ disk₂ _ => hpost _ _ _
      · intro src db h₂ disk₂ hfresh
        exact safe_migrateOpened haead hlegacy hguar hfresh.has fun r h₃ disk₃ => hpost _ _ _

theorem safe_job (haead : Aead crypto) (hlegacy : Legacy start) (hguar : ∀ h e, guar h e)
    {post : List Event → Disk → Outcome → Prop} (hpost : ∀ h disk r, post h disk r) (j : Job) :
    (Job.prog crypto j).Safe ((sharing crypto start).setting t) guar post h disk := by
  cases j with
  | serve path master writes => exact safe_serve haead hlegacy hguar hpost
  | migrate path master dryRun => exact safe_migrate haead hlegacy hguar hpost

end Shared

section Refusals
variable {crypto : StoreCrypto} {start disk : Disk} {t d : Nat} {db : Database} {master : H256}
variable {e : StoreError} {h : List Event}

/-- A database that is not to be opened under the key, and the error for it. -/
inductive Refusal (crypto : StoreCrypto) (master : H256) (db : Database) : StoreError → Prop
  | wrongKey (master' : H256) (raw : Bytes) (hraw : db.get encMarkerKey = some raw)
      (hsealed : SealedUnder crypto master' encMarkerKey raw) (hne : master ≠ master') :
      Refusal crypto master db .wrongKey
  | plaintext (hnone : db.get encMarkerKey = none) (hrows : rowsOf db ≠ []) :
      Refusal crypto master db .plaintextStore

/-- The error that is returned, or that the marker could not be read. -/
def TurnsAway (d : Nat) (e : StoreError) (h : List Event) (r : Except StoreError Unit) : Prop :=
  r = .error e ∨ ∃ msg, (⟨.get d encMarkerKey, .error msg⟩ : Event) ∈ h ∧ r = .error (.rocks msg)

theorem markerOpens_other_key (haead : Aead crypto) {master' : H256} {raw : Bytes}
    (hsealed : SealedUnder crypto master' encMarkerKey raw) (hne : master ≠ master') :
    markerOpens crypto master raw = false := by
  obtain ⟨nonce, plaintext, hseal, -⟩ := hsealed
  rw [markerOpens, openValue_other_key haead hne hseal]

theorem exists_rowsOf {db : Database} {key value : Bytes} (h : db.get key = some value) :
    rowsOf db ≠ [] := by
  intro hnil
  have hnone := (all_of_rowsOf_nil hnil fun _ _ => False).get h
  exact hnone

/-- A database that is refused is read and closed. -/
theorem safe_of_refusal (haead : Aead crypto) (hrefusal : Refusal crypto master db e)
    (hopen : disk.opened t d = some db) :
    (checkOrInitEncMarker crypto ⟨d, master⟩).Safe ((sharing crypto start).setting t)
      (fun _ ev => Op.inspects d ev.1 = true) (fun h' disk' r => TurnsAway d e h' r ∧
        disk'.opened t d = some db) h disk := by
  have hold : Hold ((sharing crypto start).setting t) (fun _ ev => Op.inspects d ev.1 = true) t d
      (Holding t none) (Next crypto) := hold_of_open (fun _ _ _ ho => ho) nofun
  have hhas : Has (Holding t none) t d db disk := ⟨nofun, hopen⟩
  rw [checkOrInitEncMarker]
  apply hold.perform hhas
  · intro disk₁ hhas₁ c
    exact (isSome_of_opened hhas₁.2 c).1 encMarkerKey
  · intro disk₁ x disk₂ c hhas₁ hinv hstep
    obtain ⟨rfl, db', hopen', hx⟩ := perform_get hstep
    rw [hhas₁.2] at hopen'
    cases hopen'
    refine ⟨by simp [Op.inspects], hinv, ?_⟩
    rcases hx with rfl | ⟨msg, rfl⟩
    · cases hrefusal with
      | wrongKey master' raw hraw hsealed hne =>
        have hopens := markerOpens_other_key haead hsealed hne
        rw [hraw]
        dsimp only
        rw [markerOpens] at hopens
        cases hvalue : openValue crypto master encMarkerKey raw with
        | error e => exact ⟨.inl rfl, hhas₁.2⟩
        | ok pt =>
          rw [hvalue] at hopens
          have hpt : pt ≠ encMarkerPlaintext := beq_eq_false_iff_ne.1 hopens
          dsimp only
          rw [if_pos hpt]
          exact ⟨.inl rfl, hhas₁.2⟩
      | plaintext hnone hrows =>
        rw [hnone]
        apply hold.iterator hhas₁
        intro items h₂ disk₂ hhas₂ hitems
        have hsome : items.head?.isSome = true := by
          obtain ⟨row, rows, hcons⟩ := List.exists_cons_of_ne_nil hrows
          rcases hitems with rfl | ⟨n, msg, rfl⟩
          · rw [hcons]
            rfl
          · cases n with
            | zero => rfl
            | succ n =>
              rw [hcons]
              rfl
        rw [if_pos hsome]
        exact ⟨.inl rfl, hhas₂.2⟩
    · exact ⟨.inr ⟨msg, List.mem_cons_self, rfl⟩, hhas₁.2⟩

/-- How a process goes on once it has asked for its database. -/
def afterOpen (crypto : StoreCrypto) (master : H256) (writes : List Write) :
    Except String Nat → M Outcome
  | .error e => return .served (.error (.rocks e))
  | .ok d => do
    match ← checkOrInitEncMarker crypto ⟨d, master⟩ with
    | .error e => do
      close d
      return .served (.error e)
    | .ok () => do
      applyWrites crypto ⟨d, master⟩ writes
      close d
      return .served (.ok ())

theorem prog_serve (crypto : StoreCrypto) (path : String) (master : H256) (writes : List Write) :
    Job.prog crypto (.serve path master writes) =
      .op (.openDb path true) (afterOpen crypto master writes) := by
  rw [Job.prog, serve, openStore, Prog.bind_assoc, Prog.bind_assoc, openDb, Prog.perform_bind]
  congr 1
  funext x
  cases x with
  | error e => rfl
  | ok d =>
    simp only [afterOpen, Prog.bind_assoc]
    congr 1
    funext r
    cases r with
    | error e => rfl
    | ok u => simp only [Prog.bind_assoc, Prog.pure_def, Prog.ret_bind]

theorem safe_afterOpen (haead : Aead crypto) (hrefusal : Refusal crypto master db e)
    (hopen : disk.opened t d = some db) (writes : List Write) :
    (afterOpen crypto master writes (.ok d)).Safe ((sharing crypto start).setting t)
      (fun _ ev => Op.inspects d ev.1 = true)
      (fun h' _ r => ∃ r', r = .served r' ∧ TurnsAway d e h' r') h disk := by
  have hold : Hold ((sharing crypto start).setting t) (fun _ ev => Op.inspects d ev.1 = true) t d
      (Holding t none) (Next crypto) := hold_of_open (fun _ _ _ ho => ho) nofun
  apply (safe_of_refusal haead hrefusal hopen).bind
  intro h₁ disk₁ r hr
  obtain ⟨haway, hopen₁⟩ := hr
  cases r with
  | ok u =>
    rcases haway with hne | ⟨msg, -, hne⟩
    · cases hne
    · cases hne
  | error e' =>
    apply hold.perform ⟨nofun, hopen₁⟩
    · intro disk₂ hhas₂ c
      exact (isSome_of_opened hhas₂.2 c).2.2.2.2.2
    · intro disk₂ x disk₃ c hhas₂ hinv hstep
      refine ⟨by simp [Op.inspects], Clean.perform hinv hstep rfl, _, rfl, ?_⟩
      rcases haway with heq | ⟨msg, hmem, heq⟩
      · exact .inl heq
      · exact .inr ⟨msg, List.mem_cons_of_mem _ hmem, heq⟩

end Refusals

section Claim
variable {crypto : StoreCrypto} {start : Disk}

theorem unmixed_of_intact (hlegacy : Legacy start) {d : Nat} {db : Database}
    (h : Intact crypto (Disk.old start d) db) : Unmixed crypto (Disk.old start d) db := by
  cases h with
  | marking master h =>
    cases hmarker : db.get encMarkerKey with
    | none =>
      apply Unmixed.empty
      intro key
      by_contra hsome
      obtain ⟨value, hvalue⟩ := Option.ne_none_iff_exists'.1 hsome
      rw [(h.get hvalue).1, hmarker] at hvalue
      cases hvalue
    | some raw =>
      apply Unmixed.encrypted master
      · rw [hmarker]
        rfl
      · exact fun key value hvalue => (h.get hvalue).2
  | plaintext legacy hold h =>
    obtain ⟨dir, hdir, hbase⟩ := Option.bind_eq_some_iff.1 hold
    have hunmarked : legacy.All fun key _ => key ≠ encMarkerKey := hlegacy d dir legacy hdir hbase
    apply Unmixed.plaintext legacy hold
    · by_contra hsome
      obtain ⟨raw, hraw⟩ := Option.ne_none_iff_exists'.1 hsome
      exact hunmarked _ (h.get hraw) rfl
    · exact fun key value hvalue => h.get hvalue
  | encrypted master h =>
    apply Unmixed.encrypted master
    · rw [DurableStore.get_eq, Option.isSome_or, h.marker, Bool.or_true]
    · exact fun key value hvalue => h.rows.get hvalue

theorem clean_start (crypto : StoreCrypto) (start : Disk) : Clean crypto start start := by
  intro d dir db hdir hbase
  have hold : Disk.old start d = some db := by rw [Disk.old, hdir, Option.bind_some, hbase]
  exact .plaintext db hold fun row hrow => hrow

theorem clean_of_run (haead : Aead crypto) (hlegacy : Legacy start) {s : (stores crypto).State}
    (hrun : Run crypto start s) : Clean crypto start s.shared := by
  have hjobs : ∀ j t sh, (sharing crypto start).inv sh →
      ((stores crypto).prog j).Safe ((sharing crypto start).setting t) (fun _ _ => True)
        (fun _ _ _ => True) [] sh :=
    fun j _ _ _ => safe_job haead hlegacy (fun _ _ => trivial) (fun _ _ _ => trivial) j
  exact (System.Reach.safe (sharing crypto start) hjobs (clean_start crypto start) hrun).1

/-- What becomes of a process whose database is refused: from then on it only reads the database,
it can go on to its end, and its end is the error. -/
structure TurnedAway (crypto : StoreCrypto) (t d : Nat) (j : Job) (e : StoreError)
    (s₁ s₂ : (stores crypto).State) : Prop where
  inspects : ∃ new, trace s₂.log t = new ++ trace s₁.log t ∧
    ∀ ev ∈ new, Op.inspects d ev.1 = true
  result : ∀ r, s₂.tasks[t]? = some ⟨j, some (.ret r)⟩ →
    ∃ r', r = .served r' ∧ TurnsAway d e (trace s₂.log t) r'
  ends : ∀ p, s₂.tasks[t]? = some ⟨j, some p⟩ → ∃ s₃ r,
    System.Reach (stores crypto) (fun _ _ => True) s₂ s₃ ∧ s₃.tasks[t]? = some ⟨j, some (.ret r)⟩

theorem turnedAway (haead : Aead crypto) (hlegacy : Legacy start) {s s₁ s₂ : (stores crypto).State}
    (hrun : Run crypto start s) {t d : Nat} {path : String} {master : H256} {writes : List Write}
    {c : Chance} {db : Database} {e : StoreError}
    (htask : s.tasks[t]? = some ⟨.serve path master writes,
      some (Job.prog crypto (.serve path master writes))⟩)
    (hstep : Transition s (.exec t c) s₁)
    (hopened : trace s₁.log t = ⟨.openDb path true, .ok d⟩ :: trace s.log t)
    (hdb : s₁.shared.opened t d = some db) (hrefusal : Refusal crypto master db e)
    (hreach : System.Reach (stores crypto) (fun _ _ => True) s₁ s₂) :
    TurnedAway crypto t d (.serve path master writes) e s₁ s₂ := by
  have hrun₁ : Run crypto start s₁ := hrun.step trivial (System.step_of_transition hstep)
  have hlt := (List.getElem?_eq_some_iff.1 htask).1
  have hclean : ∀ s', System.Reach (stores crypto) (fun _ _ => True) s₁ s' →
      (sharing crypto start).inv s'.shared :=
    fun s' hs' => clean_of_run haead hlegacy (hrun₁.trans hs')
  have htask₁ : s₁.tasks[t]? = some ⟨.serve path master writes,
      some (afterOpen crypto master writes (.ok d))⟩ := by
    cases hstep with
    | exec _ _ j o k a sh htask' hhandle =>
      rw [htask, prog_serve] at htask'
      cases htask'
      rw [System.trace_advance_self] at hopened
      cases (List.cons.inj hopened).1
      exact System.advance_task hlt _ _
  have hsafe : (afterOpen crypto master writes (.ok d)).Safe ((sharing crypto start).setting t) _ _
      (trace s₁.log t) s₁.shared := safe_afterOpen haead hrefusal hdb writes
  obtain ⟨q, hq, ⟨new, hnew, hinspects⟩, hsafe₂⟩ :=
    hreach.safe_from (sharing crypto start) hclean htask₁ (.of_safe hsafe)
  constructor
  · refine ⟨new, hnew, fun ev hev => ?_⟩
    obtain ⟨past, hev⟩ := hinspects ev hev
    exact hev
  · intro r hr
    rw [hq] at hr
    cases hr
    obtain ⟨sh, r', hr', haway⟩ := (hsafe₂ _ rfl).ret
    exact ⟨r', hr', haway⟩
  · intro p hp
    rw [hq] at hp
    cases hp
    exact System.Reach.finishes (sharing crypto start) {} (fun _ => trivial)
      (fun s' hs' => hclean s' (hreach.trans hs')) hq (hsafe₂ _ rfl)

/-- In every run each database is unmixed, and a database that is marked under another key or
holds plaintext is refused by whoever opens it. -/
theorem stores_never_mix (haead : Aead crypto) (hlegacy : Legacy start)
    {s : (stores crypto).State} (hrun : Run crypto start s) :
    (∀ path d dir db, s.shared.dir path = some (d, dir) → dir.base = some db →
      Unmixed crypto (Disk.old start d) db) ∧
    ∀ t path master writes c s₁ d db e,
      s.tasks[t]? = some ⟨.serve path master writes,
        some (Job.prog crypto (.serve path master writes))⟩ →
      Transition s (.exec t c) s₁ →
      trace s₁.log t = ⟨.openDb path true, .ok d⟩ :: trace s.log t →
      s₁.shared.opened t d = some db → Refusal crypto master db e →
      ∀ s₂, System.Reach (stores crypto) (fun _ _ => True) s₁ s₂ →
        TurnedAway crypto t d (.serve path master writes) e s₁ s₂ := by
  constructor
  · intro path d dir db hpath hbase
    obtain ⟨d', -, hd'⟩ := Option.bind_eq_some_iff.1 hpath
    obtain ⟨dir', hdir, heq⟩ := Option.map_eq_some_iff.1 hd'
    cases heq
    exact unmixed_of_intact hlegacy (clean_of_run haead hlegacy hrun d dir db hdir hbase)
  · intro t path master writes c s₁ d db e htask hstep hopened hdb hrefusal s₂ hreach
    exact turnedAway haead hlegacy hrun htask hstep hopened hdb hrefusal hreach

end Claim

section Sample

def master₁ : H256 := 0x2a2a2a2a2a2a2a2a2a2a2a2a2a2a2a2a2a2a2a2a2a2a2a2a2a2a2a2a2a2a2a2a

def master₂ : H256 := 0x2b2b2b2b2b2b2b2b2b2b2b2b2b2b2b2b2b2b2b2b2b2b2b2b2b2b2b2b2b2b2b2b

def metaKey₁ : H256 := 0x6369c87ad8b6ed714d847372c26ad26a0973aa7259840f7cd59b54b20fcc0c14

def metaKey₂ : H256 := 0xab3091baaadf51a1ebcd165cc13755b75e411b59450883b90b0e3bb50ef15cba

def batchsetKey₁ : H256 := 0xe1810cdc60c7da8a9737596cdcdf89bd793753a649c4c202db90e3ac8b4fced7

def nonce₁ : BitVec 96 := 0x070707070707070707070707

/-- The marker and a row of value 1 at `batchset:1`, as the AEAD encrypts them. -/
def markerCt : Bytes :=
  [0x86, 0xe8, 0x8a, 0x88, 0x18, 0xdc, 0xd5, 0xc8, 0xa3, 0x60, 0x42, 0x2e, 0xe9, 0x82, 0x29, 0xd4,
    0x69, 0xe7, 0xca, 0xac, 0x77, 0x85, 0x1e, 0xf8, 0xef, 0xf0, 0xd8, 0xdf, 0xa7, 0x9d, 0x0d, 0xbf,
    0x28, 0x3e, 0x00, 0x6c, 0x4c, 0x30, 0xe3, 0x12, 0x49, 0xc7, 0xc7, 0xc7]

def batchsetCt : Bytes :=
  [0x05, 0x25, 0xad, 0x40, 0x35, 0x27, 0x4d, 0x34, 0x10, 0xd7, 0x66, 0xf4, 0x60, 0xdf, 0x77, 0x94,
    0x48]

/-- What was encrypted, and how. -/
structure Encryption where
  key : H256
  nonce : BitVec 96
  msg : Bytes
  aad : Bytes
  deriving DecidableEq

def markerEncryption : Encryption := ⟨metaKey₁, nonce₁, encMarkerPlaintext, encMarkerKey⟩

def batchsetEncryption : Encryption := ⟨batchsetKey₁, nonce₁, [1], utf8 "batchset:1"⟩

def plainPrefix (key : H256) : Bytes := List.replicate 12 0 ++ wordBytes 32 key

/-- The derivation and the AEAD on the values at hand, and an encryption that keeps the key with
the message elsewhere. -/
def sampleCrypto : StoreCrypto where
  deriveKey domain master :=
    if domain = "citrate-gateway/store/ns/v1:meta" then
      Equiv.swap master₁ metaKey₁ (Equiv.swap master₂ metaKey₂ master)
    else if domain = "citrate-gateway/store/ns/v1:batchset" then
      Equiv.swap master₁ batchsetKey₁ master
    else master
  encrypt key nonce msg aad :=
    if ⟨key, nonce, msg, aad⟩ = markerEncryption then some markerCt
    else if ⟨key, nonce, msg, aad⟩ = batchsetEncryption then some batchsetCt
    else some (plainPrefix key ++ msg)
  decrypt key nonce ct aad :=
    if ct = markerCt then
      if key = metaKey₁ ∧ nonce = nonce₁ ∧ aad = encMarkerKey then some encMarkerPlaintext else none
    else if ct = batchsetCt then
      if key = batchsetKey₁ ∧ nonce = nonce₁ ∧ aad = utf8 "batchset:1" then some [1] else none
    else if ct.take 44 = plainPrefix key then some (ct.drop 44)
    else none

theorem plain_ne (key : H256) (msg : Bytes) :
    plainPrefix key ++ msg ≠ markerCt ∧ plainPrefix key ++ msg ≠ batchsetCt := by
  constructor
  · intro heq
    have hhead := congrArg List.head? heq
    simp [plainPrefix, markerCt, List.replicate_succ] at hhead
  · intro heq
    have hhead := congrArg List.head? heq
    simp [plainPrefix, batchsetCt, List.replicate_succ] at hhead

theorem plainPrefix_length (key : H256) : (plainPrefix key).length = 44 := by
  simp [plainPrefix]

theorem sampleCrypto_aead : Aead sampleCrypto := by
  have hcts : batchsetCt ≠ markerCt := by decide
  constructor
  · intro key nonce msg aad ct h
    simp only [sampleCrypto] at h ⊢
    split at h
    · rename_i hmarker
      cases h
      cases hmarker
      rw [if_pos rfl, if_pos ⟨rfl, rfl, rfl⟩]
    · split at h
      · rename_i hbatchset
        cases h
        cases hbatchset
        rw [if_neg hcts, if_pos rfl, if_pos ⟨rfl, rfl, rfl⟩]
      · cases h
        obtain ⟨hne₁, hne₂⟩ := plain_ne key msg
        rw [if_neg hne₁, if_neg hne₂, List.take_left' (plainPrefix_length key), if_pos rfl,
          List.drop_left' (plainPrefix_length key)]
  · intro key key' nonce msg aad ct h hne
    simp only [sampleCrypto] at h ⊢
    split at h
    · rename_i hmarker
      cases h
      cases hmarker
      rw [if_pos rfl, if_neg fun hall => hne hall.1]
    · split at h
      · rename_i hbatchset
        cases h
        cases hbatchset
        rw [if_neg hcts, if_pos rfl, if_neg fun hall => hne hall.1]
      · cases h
        obtain ⟨hne₁, hne₂⟩ := plain_ne key msg
        rw [if_neg hne₁, if_neg hne₂, List.take_left' (plainPrefix_length key), if_neg]
        intro heq
        have hkeys := congrArg (ofWordBytes 256) (List.append_cancel_left heq)
        rw [ofWordBytes_wordBytes (by norm_num), ofWordBytes_wordBytes (by norm_num)] at hkeys
        exact hne hkeys.symm
  · intro domain master master' h
    simp only [sampleCrypto] at h
    split at h
    · exact (Equiv.swap master₂ metaKey₂).injective ((Equiv.swap master₁ metaKey₁).injective h)
    · split at h
      · exact (Equiv.swap master₁ batchsetKey₁).injective h
      · exact h

def emptyDisk : Disk := ⟨fun _ => none, []⟩

/-- A store is created under one key, and another process comes to it with a second key. -/
def twoKeys : List (stores sampleCrypto).Action :=
  System.script [.serve "store" master₁ [], .serve "store" master₂ []]
    [(0, {}), (0, {}), (0, {}), (0, { random := some nonce₁ }), (0, {}), (0, {})]

def twoKeysRun : Option (stores sampleCrypto).State :=
  (stores sampleCrypto).run (fun _ _ => true) ((stores sampleCrypto).init emptyDisk) twoKeys

def markedStore : Database := ⟨[⟨encMarkerKey, wordBytes 12 nonce₁ ++ markerCt⟩], []⟩

theorem markedStore_refusal : Refusal sampleCrypto master₂ markedStore .wrongKey :=
  .wrongKey master₁ (wordBytes 12 nonce₁ ++ markerCt) (by decide +kernel)
    ⟨nonce₁, encMarkerPlaintext, by decide +kernel, fun _ => rfl⟩ (by decide)

theorem stores_never_mix_sample : ∃ s s₁, twoKeysRun = some s ∧
    (stores sampleCrypto).step s (.exec 1 {}) = some s₁ ∧
    s₁.shared.database "store" = some markedStore ∧
    TurnedAway sampleCrypto 1 0 (.serve "store" master₂ []) .wrongKey s₁ s₁ := by
  obtain ⟨s, hs, htask, s₁, hs₁, hopened, hdb, hstore⟩ : ∃ s, twoKeysRun = some s ∧
      s.tasks[1]? = some ⟨.serve "store" master₂ [],
        some (Job.prog sampleCrypto (.serve "store" master₂ []))⟩ ∧
      ∃ s₁, (stores sampleCrypto).step s (.exec 1 {}) = some s₁ ∧
        trace s₁.log 1 = ⟨.openDb "store" true, .ok 0⟩ :: trace s.log 1 ∧
        s₁.shared.opened 1 0 = some markedStore ∧
        s₁.shared.database "store" = some markedStore :=
    ⟨_, rfl, rfl, _, rfl, rfl, rfl, rfl⟩
  have hrun : Run sampleCrypto emptyDisk s := .of_run (fun _ _ _ => trivial) hs
  have hlegacy : Legacy emptyDisk := nofun
  have hnever := (stores_never_mix sampleCrypto_aead hlegacy hrun).2 1 "store" master₂ [] {} s₁ 0
    markedStore .wrongKey htask (System.step_cases hs₁) hopened hdb markedStore_refusal s₁ .refl
  exact ⟨s, s₁, hs, hs₁, hstore, hnever⟩

end Sample
end Gateway.Vault
