import CitrateGateway.Gateway.BatchJson
import CitrateGateway.Gateway.Migrate
import CitrateGateway.Gateway.RowKeys
import CitrateGateway.Shared.StoreImage

/-!
# The rows as the database has them

A row is encoded, sealed for its key and put at the bytes of the key. A database that the writes
of a store leave behind has the sealed rows of the store, each in the place of its row, and at the
bottom the marker that it was opened with.
-/

namespace Gateway
set_option autoImplicit false
open Words Durable

namespace Snapshot
open LocalProxy

def RefundOwed.members (owed : RefundOwed) : List (String × Value) := [
  ("batch_id", .string owed.batchId),
  ("payer", writeOption .string owed.payer),
  ("refund_grains", .string owed.refundGrains),
  ("recorded_at", .ofU64 owed.recordedAt)]

def RefundOwed.toValue (owed : RefundOwed) : Value := .object (members owed)

def RefundOwed.ofValue (v : Value) : Option RefundOwed := do
  let fields ← fieldsOf ["batch_id", "payer", "refund_grains", "recorded_at"] 4 v
  let batchId ← required readString fields "batch_id"
  let payer ← optional readString fields "payer"
  let refundGrains ← required readString fields "refund_grains"
  let recordedAt ← required Value.asU64 fields "recorded_at"
  return { batchId, payer, refundGrains, recordedAt }

theorem ofValue_refundOwed (owed : RefundOwed) :
    RefundOwed.ofValue (RefundOwed.toValue owed) = some owed := by
  have hpayer : optional readString (RefundOwed.members owed) "payer" = some owed.payer :=
    optional_string (by simp [RefundOwed.members, fieldValue])
  simp only [RefundOwed.ofValue, RefundOwed.toValue, fieldsOf, Option.bind_eq_bind,
    Option.bind_some, hpayer]
  simp [RefundOwed.members, required, fieldValue, readString, Value.ofU64, Value.asU64]

def RefundOwed.toJson (format : Format) (owed : RefundOwed) : Bytes :=
  (format.toVec (toValue owed)).getD []

def RefundOwed.fromJson (format : Format) (bytes : Bytes) : Option RefundOwed :=
  (format.fromSlice bytes).bind ofValue

theorem fromJson_refundOwed {format : Format} {owed : RefundOwed}
    (h : format.Carries (RefundOwed.toValue owed)) :
    RefundOwed.fromJson format (RefundOwed.toJson format owed) = some owed := by
  obtain ⟨bytes, hwrite, hread⟩ := h
  rw [RefundOwed.fromJson, RefundOwed.toJson, hwrite, Option.getD_some, hread, Option.bind_some,
    ofValue_refundOwed]

end Snapshot

namespace Vault

section Writers

/-- A little-endian number of `n` bytes. -/
def writeLe (n x : Nat) : Bytes := (beBytes n x).reverse

def writeString (s : String) : Bytes := writeLe 8 (utf8 s).length ++ utf8 s

def writeBool (b : Bool) : Bytes := [if b then 1 else 0]

def writeKeyRecord (r : KeyRecord) : Bytes :=
  writeString r.label ++ (writeLe 8 r.createdAt.toNat ++ (writeBool r.revoked ++
    (writeLe 4 r.quotaRps.toNat ++ writeLe 8 r.dailyQuota.toNat)))

def writeBalanceRecord (r : BalanceRecord) : Bytes :=
  writeString r.label ++ (writeLe 8 r.createdAt.toNat ++ (writeBool r.revoked ++
    (writeLe 1 r.backing.toNat ++ (wordBytes 20 r.depositAddress ++ wordBytes 32 r.balance))))

/-- The reader takes the bytes from the front of whatever they begin, and makes `a` of them. -/
def Reads {α : Type} (r : Reader α) (a : α) (bytes : Bytes) : Prop :=
  ∀ rest, r (bytes ++ rest) = some (a, rest)

variable {α β : Type} {r : Reader α} {a : α} {b : β} {bytes bytes' : Bytes}

theorem Reads.bind {f : α → Reader β} (hr : Reads r a bytes) (hf : Reads (f a) b bytes') :
    Reads (r >>= f) b (bytes ++ bytes') := by
  intro rest
  show (r (bytes ++ bytes' ++ rest)).bind (fun x => f x.1 x.2) = some (b, rest)
  rw [List.append_assoc, hr, Option.bind_some, hf]

theorem Reads.map (hr : Reads r a bytes) (f : α → β) :
    Reads (r >>= fun x => pure (f x)) (f a) bytes := by
  intro rest
  show (r (bytes ++ rest)).bind (fun x => some (f x.1, x.2)) = some (f a, rest)
  rw [hr, Option.bind_some]

theorem Reads.deserialize (hr : Reads r a bytes) : deserialize r bytes = some a := by
  have h := hr []
  rw [List.append_nil] at h
  rw [Vault.deserialize, h, Option.map_some]

theorem readBytes_reads {n : Nat} (h : bytes.length = n) : Reads (readBytes n) bytes bytes := by
  intro rest
  rw [readBytes, if_pos (by simp [h]), List.take_left' h, List.drop_left' h]

theorem readLe_reads {n x : Nat} (h : x < 256 ^ n) : Reads (readLe n) x (writeLe n x) := by
  have hbytes : Reads (readBytes n) (writeLe n x) (writeLe n x) :=
    readBytes_reads (by simp [writeLe])
  have hread := hbytes.map fun bs => ofBeBytes bs.reverse
  rw [writeLe, List.reverse_reverse, ofBeBytes_beBytes, Nat.mod_eq_of_lt h] at hread
  exact hread

theorem readString_reads {s : String} (h : (utf8 s).length < 2 ^ 64) :
    Reads readString s (writeString s) := by
  have htext : String.fromUTF8? ⟨(utf8 s).toArray⟩ = some s := by
    have hbytes : (⟨(utf8 s).toArray⟩ : ByteArray) = s.toUTF8 := rfl
    rw [hbytes, String.fromUTF8?, dif_pos (by exact s.isValidUTF8)]
    rfl
  refine (readLe_reads (by omega)).bind ?_
  have hread : Reads (readBytes (utf8 s).length) (utf8 s) (utf8 s) := readBytes_reads rfl
  intro rest
  show ((readBytes (utf8 s).length) (utf8 s ++ rest)).bind _ = some (s, rest)
  rw [hread, Option.bind_some]
  dsimp only
  rw [htext]
  rfl

theorem readBool_reads (b : Bool) : Reads readBool b (writeBool b) := by
  intro rest
  cases b <;> rfl

theorem readKeyRecord_reads {r : KeyRecord} (h : (utf8 r.label).length < 2 ^ 64) :
    Reads readKeyRecord r (writeKeyRecord r) := by
  have hcreated := r.createdAt.toNat_lt
  have hquota := r.quotaRps.toNat_lt
  have hdaily := r.dailyQuota.toNat_lt
  refine (readString_reads h).bind ((readLe_reads (by omega)).bind
    ((readBool_reads _).bind ((readLe_reads (by omega)).bind ?_)))
  have hlast := (readLe_reads (n := 8) (x := r.dailyQuota.toNat) (by omega)).map fun dailyQuota =>
    (⟨r.label, .ofNat r.createdAt.toNat, r.revoked, .ofNat r.quotaRps.toNat,
      .ofNat dailyQuota⟩ : KeyRecord)
  simp only [UInt64.ofNat_toNat, UInt32.ofNat_toNat] at hlast ⊢
  exact hlast

theorem readWord_reads {k w : Nat} (hw : w = 8 * k) (x : BitVec w) (f : BitVec w → β) :
    Reads (readBytes k >>= fun bs => pure (f (ofWordBytes w bs))) (f x) (wordBytes k x) := by
  have hread := (readBytes_reads (wordBytes_length k x)).map fun bs => f (ofWordBytes w bs)
  rw [ofWordBytes_wordBytes hw] at hread
  exact hread

theorem readBalanceRecord_reads {r : BalanceRecord} (h : (utf8 r.label).length < 2 ^ 64) :
    Reads readBalanceRecord r (writeBalanceRecord r) := by
  have hcreated := r.createdAt.toNat_lt
  have hbacking := r.backing.toNat_lt
  refine (readString_reads h).bind ((readLe_reads (by omega)).bind
    ((readBool_reads _).bind ((readLe_reads (by omega)).bind
      ((readBytes_reads (wordBytes_length 20 _)).bind ?_))))
  rw [ofWordBytes_wordBytes (by norm_num), UInt64.ofNat_toNat, UInt8.ofNat_toNat]
  exact readWord_reads (by norm_num) r.balance fun balance =>
    (⟨r.label, r.createdAt, r.revoked, r.backing, r.depositAddress, balance⟩ : BalanceRecord)

end Writers

section Sealing
open Files
variable (crypto : StoreCrypto) (master : H256) (format : Snapshot.Format)

/-- What a row is encoded to. -/
def encode : (k : RowKey) → RowVal k → Bytes
  | .record _, r => writeKeyRecord r
  | .bal _, r => writeBalanceRecord r
  | .batch _, b => Snapshot.PersistedBatch.toJson format b
  | .batchset _, () => [1]
  | .refundowed _, owed => Snapshot.RefundOwed.toJson format owed
  | .mbudget _ _, amount => wordBytes 32 amount
  | .quota _ _, n => writeLe 8 n.toNat
  | .memberMap _, hash => utf8 hash

/-- A label is no longer than a string can be, and the package carries the JSON values. -/
def Carried : (k : RowKey) → RowVal k → Prop
  | .record _, r => (utf8 r.label).length < 2 ^ 64
  | .bal _, r => (utf8 r.label).length < 2 ^ 64
  | .batch _, b => format.Carries (Snapshot.PersistedBatch.toValue b)
  | .refundowed _, owed => format.Carries (Snapshot.RefundOwed.toValue owed)
  | .batchset _, _ | .mbudget _ _, _ | .quota _ _, _ | .memberMap _, _ => True

/-- A row, and what the store puts into the database for it. -/
def SealedRow (row : Row) (raw : (_ : Bytes) × Bytes) : Prop :=
  raw.1 = utf8 (rowKey row.1) ∧
    ∃ nonce, sealWith crypto master nonce raw.1 (encode format row.1 row.2) = .ok raw.2

/-- The database that a store leaves behind: opened empty, written to through its operations, and
crashed or closed any number of times. -/
inductive Stored : Rows → Database → Prop
  | opened (nonce : BitVec 96) (marker : Bytes)
    (hmarker : sealWith crypto master nonce encMarkerKey encMarkerPlaintext = .ok marker) :
    Stored .empty (DurableStore.empty.commit [⟨encMarkerKey, marker⟩])
  | put {rows : Rows} {db : Database} {row : Row} {raw : (_ : Bytes) × Bytes}
    (h : Stored rows db) (hrow : SealedRow crypto master format row raw) :
    Stored (rows.put row) (db.put raw)
  | commit {rows : Rows} {db : Database} {group : List Row} {raws : List ((_ : Bytes) × Bytes)}
    (h : Stored rows db) (hgroup : List.Forall₂ (SealedRow crypto master format) group raws) :
    Stored (rows.commit group) (db.commit raws)
  | crash {rows : Rows} {db : Database} (h : Stored rows db) (mask : List Bool) :
    Stored (rows.crash mask) (db.crash mask)

variable {crypto master format} {rows : Rows} {db : Database}

theorem Stored.image (h : Stored crypto master format rows db) :
    ∃ marker, Image (SealedRow crypto master format) [⟨encMarkerKey, marker⟩] rows db := by
  induction h with
  | opened nonce marker hmarker =>
    have hempty : Image (SealedRow crypto master format)
        [(⟨encMarkerKey, marker⟩ : (_ : Bytes) × Bytes)] .empty _ := Image.empty _
    exact ⟨marker, hempty⟩
  | put h hrow ih =>
    obtain ⟨marker, himage⟩ := ih
    exact ⟨marker, himage.put hrow⟩
  | commit h hgroup ih =>
    obtain ⟨marker, himage⟩ := ih
    exact ⟨marker, himage.commit hgroup⟩
  | crash h mask ih =>
    obtain ⟨marker, himage⟩ := ih
    exact ⟨marker, himage.crash mask⟩

theorem sealed_sameKeys : SameKeys fun (row : Row) raw =>
    (WellFormed row.1 ∧ Carried format row.1 row.2) ∧ SealedRow crypto master format row raw := by
  intro row row' raw raw' h h'
  rw [h.2.1, h'.2.1]
  constructor
  · intro heq
    rw [heq]
  · exact utf8_rowKey_inj h.1.1 h'.1.1

/-- A database of well-formed rows has each of them once, sealed, and the marker. -/
theorem Stored.rows_eq (h : Stored crypto master format rows db)
    (hrows : rows.All fun k v => WellFormed k ∧ Carried format k v) :
    ∃ marker raws, db.rows = raws ++ [⟨encMarkerKey, marker⟩] ∧
      List.Forall₂ (fun (row : Row) raw => (WellFormed row.1 ∧ Carried format row.1 row.2) ∧
        SealedRow crypto master format row raw) rows.rows raws := by
  obtain ⟨marker, himage⟩ := h.image
  have hfloor : ∀ (row : Row) (raw : (_ : Bytes) × Bytes),
      (WellFormed row.1 ∧ Carried format row.1 row.2) ∧ SealedRow crypto master format row raw →
      raw.1 ∉ List.keys [(⟨encMarkerKey, marker⟩ : (_ : Bytes) × Bytes)] := by
    intro row raw hraw
    rw [hraw.2.1]
    simpa using rowKey_ne_marker row.1
  obtain ⟨raws, hdb, hraws⟩ := (himage.of_all hrows).rows sealed_sameKeys hfloor
  exact ⟨marker, raws, hdb, hraws⟩

theorem SealedRow.opens {row : Row} {raw : (_ : Bytes) × Bytes} (htrip : RoundTrip crypto)
    (h : SealedRow crypto master format row raw) :
    openValue crypto master raw.1 raw.2 = .ok (encode format row.1 row.2) := by
  obtain ⟨-, nonce, hseal⟩ := h
  exact openValue_of_seal htrip hseal

end Sealing

end Vault
end Gateway
