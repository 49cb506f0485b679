import CitrateGateway.Gateway.KeyedRows
import CitrateGateway.Gateway.SealedRows
import CitrateGateway.Gateway.UnmixedStores
import CitrateGateway.Shared.PrefixScan

/-!
# The prefix scans of the store

Four methods go through the keys that begin with a prefix until one does not. What they make of
the database of a store are the rows of one namespace, or of one key in it, and the part of the
key after the prefix is the id or the model that the row was written for.
-/

namespace Gateway.Vault
set_option autoImplicit false
open Words Durable Files

section Scans
variable {α : Type}

/-- The rows from the first key not below the prefix; an item may be an error. -/
def prefixIterator (db : Database) (start : Bytes) (c : Chance) :
    List (Except String (Bytes × Bytes)) :=
  let items := ((rowsOf db).dropWhile fun row => row.1 < start).map .ok
  if c.fault then items.take c.rowsRead ++ [.error c.message] else items

variable (crypto : StoreCrypto) (master : H256)

/-- The loop of a scan; `keep` gets what comes after the prefix and the plaintext. -/
def scanItems (start : Bytes) (keep : Bytes → Bytes → Option α) :
    List (Except String (Bytes × Bytes)) → Except StoreError (List α)
  | [] => .ok []
  | .error e :: _ => .error (.rocks e)
  | .ok (k, v) :: items =>
    if start.isPrefixOf k then
      match openValue crypto master k v with
      | .error e => .error (.crypt e)
      | .ok plain =>
        match scanItems start keep items with
        | .error e => .error e
        | .ok out => .ok ((keep (k.drop start.length) plain).toList ++ out)
    else .ok []

def scanPrefix (start : Bytes) (keep : Bytes → Bytes → Option α) (db : Database) (c : Chance) :
    Except StoreError (List α) :=
  scanItems crypto master start keep (prefixIterator db start c)

/-- A 32-byte big-endian value; `none` if malformed. -/
def parseU256Be (b : Bytes) : Option U256 :=
  if b.length = 32 then some (ofWordBytes 256 b) else none

def loadBatches : Database → Chance → Except StoreError (List (String × Bytes)) :=
  scanPrefix crypto master (utf8 "batch:") fun id plain => some (fromUtf8Lossy id, plain)

/-- A row that is no obligation is passed over. -/
def loadRefundsOwed (format : Snapshot.Format) :
    Database → Chance → Except StoreError (List RefundOwed) :=
  scanPrefix crypto master (utf8 "refundowed:") fun _ plain =>
    Snapshot.RefundOwed.fromJson format plain

def getModelBudgets (hashKeyId : String → String) (keyId : String) :
    Database → Chance → Except StoreError (List (String × U256)) :=
  scanPrefix crypto master (utf8 (mbudgetPrefix (hashKeyId keyId))) fun model plain =>
    (parseU256Be plain).map fun amount => (fromUtf8Lossy model, amount)

def list : Database → Chance → Except StoreError (List (String × KeyRecord)) :=
  scanPrefix crypto master (utf8 "record:") fun hash plain =>
    (deserialize readKeyRecord plain).map fun r => (fromUtf8Lossy hash, r)

end Scans

section Loop
variable {α : Type} {crypto : StoreCrypto} {master : H256} {start : Bytes}
variable {keep : Bytes → Bytes → Option α} {out : List α}

/-- What a scan that is cut short answers, the whole scan answers. -/
theorem scanItems_take {items : List (Except String (Bytes × Bytes))} {n : Nat} {e : String}
    (h : scanItems crypto master start keep (items.take n ++ [.error e]) = .ok out) :
    scanItems crypto master start keep items = .ok out := by
  induction items generalizing n out with
  | nil =>
    rw [List.take_nil, List.nil_append] at h
    cases h
  | cons item items ih =>
    cases n with
    | zero => cases h
    | succ n =>
      match item with
      | .error e => cases h
      | .ok (k, v) =>
        rw [List.take_succ_cons, List.cons_append, scanItems] at h
        rw [scanItems]
        by_cases hprefix : start.isPrefixOf k = true
        · rw [if_pos hprefix] at h ⊢
          match hopen : openValue crypto master k v with
          | .error e =>
            rw [hopen] at h
            cases h
          | .ok plain =>
            rw [hopen] at h
            simp only at h ⊢
            match hrest : scanItems crypto master start keep (items.take n ++ [.error e]) with
            | .error e =>
              rw [hrest] at h
              cases h
            | .ok rest =>
              rw [hrest] at h
              rw [ih hrest]
              exact h
        · rw [if_neg hprefix] at h ⊢
          exact h

/-- What a scan keeps of a row. -/
def kept (crypto : StoreCrypto) (master : H256) (start : Bytes)
    (keep : Bytes → Bytes → Option α) (row : Bytes × Bytes) : Option α :=
  match openValue crypto master row.1 row.2 with
  | .error _ => none
  | .ok plain => keep (row.1.drop start.length) plain

/-- When every row that begins with the prefix opens, the scan keeps what it finds. -/
theorem scanItems_eq {rows : List (Bytes × Bytes)}
    (hopen : ∀ row ∈ rows, start <+: row.1 →
      ∃ plain, openValue crypto master row.1 row.2 = .ok plain) :
    scanItems crypto master start keep (rows.map .ok) =
      .ok ((rows.takeWhile fun row => start.isPrefixOf row.1).filterMap
        (kept crypto master start keep)) := by
  induction rows with
  | nil => rfl
  | cons row rows ih =>
    have hrest := ih fun row' hrow' => hopen row' (List.mem_cons_of_mem _ hrow')
    rw [List.map_cons, scanItems, List.takeWhile_cons]
    by_cases hprefix : start.isPrefixOf row.1 = true
    · obtain ⟨plain, hplain⟩ := hopen row (by simp) (List.isPrefixOf_iff_prefix.1 hprefix)
      have hkept : kept crypto master start keep row = keep (row.1.drop start.length) plain := by
        rw [kept, hplain]
      rw [if_pos hprefix, if_pos hprefix, hplain, hrest, List.filterMap_cons, hkept]
      dsimp only
      cases keep (row.1.drop start.length) plain <;> rfl
    · rw [if_neg hprefix, if_neg hprefix]
      rfl

theorem rowsOf_perm (db : Database) :
    (rowsOf db).Perm (db.rows.map fun row => (row.1, row.2)) :=
  List.perm_insertionSort _ _

theorem rowsOf_sorted (db : Database) : (rowsOf db).Pairwise fun r s => r.1 ≤ s.1 := by
  have htotal : Std.Total fun r s : Bytes × Bytes => r.1 ≤ s.1 := ⟨fun r s => List.le_total _ _⟩
  have htrans : IsTrans (Bytes × Bytes) fun r s => r.1 ≤ s.1 := ⟨fun _ _ _ => List.le_trans⟩
  exact List.pairwise_insertionSort _ _

/-- A scan of the database of a store keeps of each row what `own` says, in some order, and a scan
that meets an error either fails or answers the same. -/
theorem scanPrefix_stored {format : Snapshot.Format} {rows : Rows} {db : Database}
    {own : Row → Option α} (htrip : RoundTrip crypto) (hdb : Stored crypto master format rows db)
    (hrows : rows.All fun k v => WellFormed k ∧ Carried format k v)
    (hmarker : ¬ start <+: encMarkerKey)
    (hown : ∀ row : Row, WellFormed row.1 → Carried format row.1 row.2 →
      (if start.isPrefixOf (utf8 (rowKey row.1)) then
        keep ((utf8 (rowKey row.1)).drop start.length) (encode format row.1 row.2) else none) =
          own row) :
    ∃ out, (∀ c : Chance, c.fault = false →
        scanPrefix crypto master start keep db c = .ok out) ∧
      (∀ (c : Chance) out', scanPrefix crypto master start keep db c = .ok out' → out' = out) ∧
      out.Perm (rows.rows.filterMap own) := by
  obtain ⟨marker, raws, hdbrows, hraws⟩ := hdb.rows_eq hrows
  have hperm : (rowsOf db).Perm (raws.map (fun raw => (raw.1, raw.2)) ++
      [(encMarkerKey, marker)]) := by
    have h := rowsOf_perm db
    rw [hdbrows, List.map_append] at h
    exact h
  have hopen : ∀ row ∈ rowsOf db, start <+: row.1 →
      ∃ plain, openValue crypto master row.1 row.2 = .ok plain := by
    intro row hrow hprefix
    rcases List.mem_append.1 (hperm.mem_iff.1 hrow) with hraw | hlast
    · obtain ⟨raw, hmem, rfl⟩ := List.mem_map.1 hraw
      obtain ⟨row', -, hsealed⟩ := exists_mem_of_forall₂ hraws hmem
      exact ⟨_, hsealed.2.opens htrip⟩
    · rw [List.mem_singleton.1 hlast] at hprefix
      exact absurd hprefix hmarker
  have hkept : ∀ (row : Row) (raw : (_ : Bytes) × Bytes),
      (WellFormed row.1 ∧ Carried format row.1 row.2) ∧ SealedRow crypto master format row raw →
      (if start.isPrefixOf raw.1 then kept crypto master start keep (raw.1, raw.2) else none) =
        own row := by
    intro row raw hraw
    rw [kept, hraw.2.opens htrip, hraw.2.1]
    exact hown row hraw.1.1 hraw.1.2
  have hscan : scanItems crypto master start keep
      (((rowsOf db).dropWhile fun row => row.1 < start).map .ok) =
        .ok (((rowsOf db).filter fun row => start.isPrefixOf row.1).filterMap
          (kept crypto master start keep)) := by
    rw [scanItems_eq, ← PrefixScan.scan_eq_filter start (rowsOf_sorted db), PrefixScan.scan]
    intro row hrow
    exact hopen row ((List.dropWhile_sublist _).subset hrow)
  refine ⟨((rowsOf db).filter fun row => start.isPrefixOf row.1).filterMap
    (kept crypto master start keep), ?_, ?_, ?_⟩
  · intro c hc
    rw [scanPrefix, prefixIterator, hc]
    exact hscan
  · intro c out' hout
    rw [scanPrefix, prefixIterator] at hout
    have hwhole : scanItems crypto master start keep
        (((rowsOf db).dropWhile fun row => row.1 < start).map .ok) = .ok out' := by
      by_cases hc : c.fault = true
      · rw [hc] at hout
        exact scanItems_take hout
      · rw [Bool.eq_false_iff.2 hc] at hout
        exact hout
    exact Except.ok.inj (hwhole.symm.trans hscan)
  · have hnone : ([(encMarkerKey, marker)].filter fun row => start.isPrefixOf row.1) = [] := by
      rw [List.filter_eq_nil_iff]
      intro row hrow
      rw [List.mem_singleton.1 hrow, List.isPrefixOf_iff_prefix]
      exact hmarker
    have hraw : ((raws.map fun raw => (raw.1, raw.2)).filter
        fun row => start.isPrefixOf row.1).filterMap (kept crypto master start keep) =
          rows.rows.filterMap own := by
      rw [List.filterMap_filter, List.filterMap_map]
      exact filterMap_eq_of_forall₂ hraws hkept
    have hfilter := (hperm.filter fun row => start.isPrefixOf row.1).filterMap
      (kept crypto master start keep)
    rw [List.filter_append, hnone, List.append_nil, hraw] at hfilter
    exact hfilter

end Loop

section Methods
variable {α : Type} {crypto : StoreCrypto} {master : H256} {format : Snapshot.Format}
variable {rows : Rows} {db : Database}

/-- Without an error the scan answers the rows, in some order, and no error makes it answer
anything else. -/
def Exact (scan : Chance → Except StoreError (List α)) (rows : List α) : Prop :=
  ∃ out, (∀ c : Chance, c.fault = false → scan c = .ok out) ∧
    (∀ (c : Chance) out', scan c = .ok out' → out' = out) ∧ out.Perm rows

/-- The scan of a namespace, with the bodies of its keys. -/
theorem scanNamespace_exact (ns : Namespace) {keep : Bytes → Bytes → Option α}
    {own : Row → Option α} (htrip : RoundTrip crypto) (hdb : Stored crypto master format rows db)
    (hrows : rows.All fun k v => WellFormed k ∧ Carried format k v)
    (hin : ∀ row : Row, keyNamespace row.1 = ns → Carried format row.1 row.2 →
      keep (utf8 (keyBody row.1)) (encode format row.1 row.2) = own row)
    (hout : ∀ row : Row, keyNamespace row.1 ≠ ns → own row = none) :
    Exact (scanPrefix crypto master ns.start keep db) (rows.rows.filterMap own) := by
  refine scanPrefix_stored htrip hdb hrows (start_not_marker ns) ?_
  intro row _ hcarried
  by_cases hns : keyNamespace row.1 = ns
  · rw [if_pos (List.isPrefixOf_iff_prefix.2 (start_prefix_iff.2 hns)), ← hns, drop_start]
    exact hin row hns hcarried
  · rw [if_neg fun h => hns (start_prefix_iff.1 (List.isPrefixOf_iff_prefix.1 h))]
    exact (hout row hns).symm

/-- The obligations of the store. -/
def refundsOf (rows : Rows) : List RefundOwed :=
  rows.rows.filterMap fun
    | ⟨.refundowed _, owed⟩ => some owed
    | _ => none

/-- The records of the store with the hashes they are kept by. -/
def recordsOf (rows : Rows) : List (String × KeyRecord) :=
  rows.rows.filterMap fun
    | ⟨.record hash, r⟩ => some (hash, r)
    | _ => none

/-- The batch a row keeps. -/
def batchRow : Row → Option (String × PersistedBatch)
  | ⟨.batch id, b⟩ => some (id, b)
  | _ => none

/-- The budget of a key a row keeps. -/
def budgetRow (hash : String) : Row → Option (String × U256)
  | ⟨.mbudget h model, v⟩ => if h = hash then some (model, v) else none
  | _ => none

theorem loadBatches_exact (htrip : RoundTrip crypto) (hdb : Stored crypto master format rows db)
    (hrows : rows.All fun k v => WellFormed k ∧ Carried format k v) :
    Exact (loadBatches crypto master db) ((KeyStore.batchRows rows).map fun row =>
      (row.1, Snapshot.PersistedBatch.toJson format row.2)) := by
  have hexact : Exact (loadBatches crypto master db) (rows.rows.filterMap fun row =>
      (batchRow row).map fun row => (row.1, Snapshot.PersistedBatch.toJson format row.2)) := by
    refine scanNamespace_exact .batch htrip hdb hrows ?_ ?_
    · intro row hns _
      obtain ⟨k, v⟩ := row
      cases k <;> simp only [keyNamespace, reduceCtorEq] at hns
      rw [keyBody, fromUtf8Lossy_utf8]
      rfl
    · intro row hns
      obtain ⟨k, v⟩ := row
      cases k <;> first | rfl | exact absurd rfl hns
  obtain ⟨out, hok, hfaults, hperm⟩ := hexact
  refine ⟨out, hok, hfaults, hperm.trans ?_⟩
  rw [← List.map_filterMap]
  exact ((List.perm_insertionSort _ _).map _).symm

theorem loadRefundsOwed_exact (htrip : RoundTrip crypto)
    (hdb : Stored crypto master format rows db)
    (hrows : rows.All fun k v => WellFormed k ∧ Carried format k v) :
    Exact (loadRefundsOwed crypto master format db) (refundsOf rows) := by
  refine scanNamespace_exact .refundowed htrip hdb hrows ?_ ?_
  · intro row hns hcarried
    obtain ⟨k, v⟩ := row
    cases k <;> simp only [keyNamespace, reduceCtorEq] at hns
    exact Snapshot.fromJson_refundOwed hcarried
  · intro row hns
    obtain ⟨k, v⟩ := row
    cases k <;> first | rfl | exact absurd rfl hns

theorem list_exact (htrip : RoundTrip crypto) (hdb : Stored crypto master format rows db)
    (hrows : rows.All fun k v => WellFormed k ∧ Carried format k v) :
    Exact (list crypto master db) (recordsOf rows) := by
  refine scanNamespace_exact .record htrip hdb hrows ?_ ?_
  · intro row hns hcarried
    obtain ⟨k, v⟩ := row
    cases k <;> simp only [keyNamespace, reduceCtorEq] at hns
    rw [encode, (readKeyRecord_reads hcarried).deserialize, keyBody, fromUtf8Lossy_utf8]
    rfl
  · intro row hns
    obtain ⟨k, v⟩ := row
    cases k <;> first | rfl | exact absurd rfl hns

theorem parseU256Be_wordBytes (amount : U256) :
    parseU256Be (wordBytes 32 amount) = some amount := by
  rw [parseU256Be, if_pos (wordBytes_length 32 amount), ofWordBytes_wordBytes (by norm_num)]

theorem getModelBudgets_exact {hash : String → String} (keyId : String)
    (hhash : BearerHash (hash keyId)) (htrip : RoundTrip crypto)
    (hdb : Stored crypto master format rows db)
    (hrows : rows.All fun k v => WellFormed k ∧ Carried format k v) :
    Exact (getModelBudgets crypto master hash keyId db)
      (KeyStore.budgetsOf rows (hash keyId)) := by
  have hexact : Exact (getModelBudgets crypto master hash keyId db)
      (rows.rows.filterMap (budgetRow (hash keyId))) := by
    refine scanPrefix_stored htrip hdb hrows (mbudgetPrefix_not_marker _) ?_
    intro row hwell _
    by_cases hown : ∃ model, row.1 = .mbudget (hash keyId) model
    · rw [if_pos (List.isPrefixOf_iff_prefix.2 ((mbudgetPrefix_iff hhash hwell).2 hown))]
      obtain ⟨k, v⟩ := row
      obtain ⟨model, hk⟩ := hown
      cases hk
      rw [drop_mbudgetPrefix, encode, parseU256Be_wordBytes, fromUtf8Lossy_utf8]
      simp only [budgetRow, if_true, Option.map_some]
    · rw [if_neg fun h => hown ((mbudgetPrefix_iff hhash hwell).1
        (List.isPrefixOf_iff_prefix.1 h))]
      obtain ⟨k, v⟩ := row
      cases k with
      | mbudget h model =>
        have hne : h ≠ hash keyId := by
          rintro rfl
          exact hown ⟨model, rfl⟩
        simp only [budgetRow, if_neg hne]
      | _ => rfl
  obtain ⟨out, hok, hfaults, hperm⟩ := hexact
  exact ⟨out, hok, hfaults, hperm.trans (List.perm_insertionSort _ _).symm⟩

end Methods

section Runs
variable {crypto : StoreCrypto} {master : H256} {format : Snapshot.Format}

theorem exists_sealedRow
    (htotal : ∀ key nonce msg aad, (crypto.encrypt key nonce msg aad).isSome = true) (row : Row) :
    ∃ raw, SealedRow crypto master format row raw := by
  obtain ⟨ct, hct⟩ := Option.isSome_iff_exists.1 (htotal
    (cipherFor crypto master (namespaceOf (utf8 (rowKey row.1)))) 0 (encode format row.1 row.2)
    (utf8 (rowKey row.1)))
  exact ⟨⟨utf8 (rowKey row.1), wordBytes 12 (0 : BitVec 96) ++ ct⟩, rfl, 0,
    sealWith_eq_ok.2 ⟨ct, hct, rfl⟩⟩

theorem exists_sealedRows
    (htotal : ∀ key nonce msg aad, (crypto.encrypt key nonce msg aad).isSome = true)
    (group : List Row) : ∃ raws, List.Forall₂ (SealedRow crypto master format) group raws := by
  induction group with
  | nil => exact ⟨[], .nil⟩
  | cons row group ih =>
    obtain ⟨raws, hraws⟩ := ih
    obtain ⟨raw, hraw⟩ := exists_sealedRow htotal row
    exact ⟨raw :: raws, .cons hraw hraws⟩

/-- Whatever the calls wrote, there is a database that holds it. -/
theorem exists_stored {sha256 : Bytes → H256}
    {ok : (KeyStore.storeCalls (hashKeyId sha256)).State →
      (KeyStore.storeCalls (hashKeyId sha256)).Action → Prop}
    {s : (KeyStore.storeCalls (hashKeyId sha256)).State}
    (htotal : ∀ key nonce msg aad, (crypto.encrypt key nonce msg aad).isSome = true)
    (h : KeyStore.Run (hashKeyId sha256) (KeyStore.storeCalls (hashKeyId sha256)).prog .empty ok
      s) : ∃ db, Stored crypto master format s.shared.store.rows db := by
  have hempty : ∃ db, Stored crypto master format .empty db := by
    obtain ⟨ct, hct⟩ := Option.isSome_iff_exists.1 (htotal
      (cipherFor crypto master (namespaceOf encMarkerKey)) 0 encMarkerPlaintext encMarkerKey)
    exact ⟨_, .opened 0 _ (sealWith_eq_ok.2 ⟨ct, hct, rfl⟩)⟩
  refine h.invariant (fun s : (KeyStore.storeCalls (hashKeyId sha256)).State =>
    ∃ db, Stored crypto master format s.shared.store.rows db) hempty ?_
  intro s s' act _ hs _ hstep
  obtain ⟨db, hdb⟩ := hs
  cases hstep with
  | start j sh hstart =>
    cases hstart
    exact ⟨db, hdb⟩
  | exec t c j o k a sh htask hhandle =>
    rw [KeyStore.advance_store]
    have hacc := KeyStore.handle_cases hhandle
    cases hacc with
    | put row =>
      obtain ⟨raw, hraw⟩ := exists_sealedRow htotal row
      exact ⟨_, hdb.put hraw⟩
    | putSynced row =>
      obtain ⟨raw, hraw⟩ := exists_sealedRow htotal row
      exact ⟨_, hdb.commit (.cons hraw .nil)⟩
    | writeBatch group =>
      obtain ⟨raws, hraws⟩ := exists_sealedRows htotal group
      exact ⟨_, hdb.commit hraws⟩
    | _ => exact ⟨db, hdb⟩
  | drop t j o k htask => exact ⟨db, hdb⟩
  | world w sh hworld =>
    cases w with
    | restart mask =>
      cases hworld
      exact ⟨_, hdb.crash mask⟩

/-- Different rows have different keys, which are not that of the marker, and the counter of the
member pool is no key's. Whatever the store's own calls wrote has such keys. From a database that
holds it, each scan answers exactly the rows of its own, with the ids, hashes and models they were
written for. -/
theorem own_rows_scanned (crypto : StoreCrypto) (master : H256) (format : Snapshot.Format)
    (sha256 : Bytes → H256) (htrip : RoundTrip crypto) :
    (∀ k k', WellFormed k → WellFormed k' → rowKey k = rowKey k' → k = k') ∧
    (∀ k, utf8 (rowKey k) ≠ encMarkerKey) ∧
    (∀ hash day day', BearerHash hash → memberPoolKey day ≠ quotaKey hash day') ∧
    (∀ keyId, BearerHash (hashKeyId sha256 keyId)) ∧
    (∀ (ok : (KeyStore.storeCalls (hashKeyId sha256)).State →
        (KeyStore.storeCalls (hashKeyId sha256)).Action → Prop)
        (s : (KeyStore.storeCalls (hashKeyId sha256)).State),
      KeyStore.Run (hashKeyId sha256) (KeyStore.storeCalls (hashKeyId sha256)).prog .empty ok s →
      (s.shared.store.rows.All fun k _ => WellFormed k) ∧
      ((∀ key nonce msg aad, (crypto.encrypt key nonce msg aad).isSome = true) →
        ∃ db, Stored crypto master format s.shared.store.rows db)) ∧
    ∀ rows db, Stored crypto master format rows db →
      (rows.All fun k v => WellFormed k ∧ Carried format k v) →
      Exact (loadBatches crypto master db) ((KeyStore.batchRows rows).map fun row =>
        (row.1, Snapshot.PersistedBatch.toJson format row.2)) ∧
      Exact (loadRefundsOwed crypto master format db) (refundsOf rows) ∧
      Exact (list crypto master db) (recordsOf rows) ∧
      ∀ keyId, Exact (getModelBudgets crypto master (hashKeyId sha256) keyId db)
        (KeyStore.budgetsOf rows (hashKeyId sha256 keyId)) := by
  have hhash := bearerHash_hashKeyId sha256
  refine ⟨fun k k' => rowKey_inj, rowKey_ne_marker, ?_, hhash, ?_, ?_⟩
  · intro hash day day' hh heq
    have hkey : RowKey.quota .memberPool day = .quota (.key hash) day' :=
      rowKey_inj trivial hh heq
    cases hkey
  · intro ok s hrun
    refine ⟨?_, fun htotal => exists_stored htotal hrun⟩
    exact (KeyStore.keyed_of_run (KeyStore.storeCalls_vouch hhash)
      (fun row hrow => by cases hrow) hrun).rows
  · intro rows db hdb hrows
    refine ⟨loadBatches_exact htrip hdb hrows, loadRefundsOwed_exact htrip hdb hrows,
      list_exact htrip hdb hrows, ?_⟩
    intro keyId
    exact getModelBudgets_exact keyId (hhash keyId) htrip hdb hrows

def sampleRows : Rows := DurableStore.empty.commit [⟨.batchset "1", ()⟩]

/-- The database of a store with one settled marker and no batch. -/
def sampleDb : Database :=
  (DurableStore.empty.commit [⟨encMarkerKey, wordBytes 12 nonce₁ ++ markerCt⟩]).commit
    [⟨utf8 "batchset:1", wordBytes 12 nonce₁ ++ batchsetCt⟩]

theorem own_rows_scanned_sample :
    Stored sampleCrypto master₁ Snapshot.sampleFormat sampleRows sampleDb ∧
      Exact (loadBatches sampleCrypto master₁ sampleDb) [] := by
  have hstored : Stored sampleCrypto master₁ Snapshot.sampleFormat sampleRows sampleDb := by
    refine .commit (.opened nonce₁ _ (by decide +kernel)) (.cons ⟨by decide, nonce₁, ?_⟩ .nil)
    decide +kernel
  refine ⟨hstored, ?_⟩
  obtain ⟨-, -, -, -, -, hscans⟩ := own_rows_scanned sampleCrypto master₁ Snapshot.sampleFormat
    (fun _ => 0) sampleCrypto_aead.opens
  have hrows : sampleRows.All fun k v => WellFormed k ∧ Carried Snapshot.sampleFormat k v := by
    intro row hrow
    rw [List.mem_singleton.1 hrow]
    exact ⟨trivial, trivial⟩
  exact (hscans sampleRows sampleDb hstored hrows).1

end Runs

end Gateway.Vault
