import CitrateGateway.Gateway.KeyCalls

/-!
# The snapshots on disk

Only the batch methods write snapshots, each under the id it is given. What holds of every
snapshot a method is given holds of every snapshot on disk.
-/

namespace Gateway.KeyStore
set_option autoImplicit false
open Words Effects Durable

section Rows
variable {hashKeyId : String → String} {Q Q' : String → PersistedBatch → Prop}

/-- Every snapshot on disk, also one that another covers, satisfies the predicate. -/
def SnapshotsAre (Q : String → PersistedBatch → Prop) (rows : Rows) : Prop :=
  rows.All fun k v => match k, v with
    | .batch id, b => Q id b
    | _, _ => True

/-- The snapshot that a method writes. -/
def Method.snapshot : Method → Option (String × PersistedBatch)
  | .persistBatch id b | .markBatchSettled id b | .settleBatchRefund _ _ id b
  | .recordRefundOwed id _ _ b => some (id, b)
  | _ => none

/-- The snapshots among the rows are the one given. -/
def WritesOnly (snapshot : Option (String × PersistedBatch)) (rows : List Row) : Prop :=
  ∀ id b, (⟨.batch id, b⟩ : Row) ∈ rows → snapshot = some (id, b)

theorem SnapshotsAre.mono {rows : Rows} (h : SnapshotsAre Q rows)
    (himp : ∀ id b, Q id b → Q' id b) : SnapshotsAre Q' rows := by
  refine DurableStore.All.mono h fun k v hv => ?_
  cases k with
  | batch id => exact himp id v hv
  | _ => trivial

theorem SnapshotsAre.get {rows : Rows} {id : String} {b : PersistedBatch}
    (h : SnapshotsAre Q rows) (hget : rows.get (.batch id) = some b) : Q id b :=
  DurableStore.All.get h hget

theorem SnapshotsAre.crash {rows : Rows} (h : SnapshotsAre Q rows) (mask : List Bool) :
    SnapshotsAre Q (rows.crash mask) :=
  DurableStore.All.crash h mask

theorem mem_batchRows {rows : Rows} {id : String} {b : PersistedBatch} :
    (id, b) ∈ batchRows rows ↔ rows.get (.batch id) = some b := by
  rw [batchRows, List.mem_insertionSort, List.mem_filterMap]
  constructor
  · rintro ⟨⟨k, v⟩, hmem, heq⟩
    cases k with
    | batch id' =>
      cases heq
      exact DurableStore.mem_rows.1 hmem
    | _ => cases heq
  · intro hget
    exact ⟨⟨.batch id, b⟩, DurableStore.mem_rows.2 hget, rfl⟩

theorem writes_of_commits {m : Method} {past : List Event} {group : List Row}
    (h : m.Commits hashKeyId past group) : WritesOnly m.snapshot group := by
  intro id b hmem
  cases m with
  | createBalanceKey label balance depositAddress backing =>
    obtain ⟨uuid, now, _, rfl⟩ := h
    cases List.mem_singleton.1 hmem
  | debitBalance keyId amount =>
    obtain ⟨r, _, _, _, rfl⟩ := h
    cases List.mem_singleton.1 hmem
  | refundBalance keyId amount | revoke keyId =>
    obtain ⟨r, _, rfl⟩ := h
    cases List.mem_singleton.1 hmem
  | setModelBudget | debitModelBudget | refundModelBudget =>
    obtain ⟨v, rfl⟩ := h
    cases List.mem_singleton.1 hmem
  | markBatchSettled x c =>
    cases h
    have hrow : (id, b) = (x, c) := by simpa using hmem
    rw [hrow]
    rfl
  | settleBatchRefund keyId refund x c =>
    obtain ⟨r, _, _, rfl⟩ := h
    have hrow : (id, b) = (x, c) := by simpa using hmem
    rw [hrow]
    rfl
  | recordRefundOwed x payer refund c =>
    obtain ⟨owed, rfl⟩ := h
    have hrow : (id, b) = (x, c) := by simpa using hmem
    rw [hrow]
    rfl
  | _ => exact h.elim

theorem writes_of_puts {m : Method} {past : List Event} {row : Row}
    (h : m.Puts hashKeyId past row) : WritesOnly m.snapshot [row] := by
  intro id b hmem
  cases List.mem_singleton.1 hmem
  cases m with
  | persistBatch x c =>
    cases h
    rfl
  | settleBatchRefund keyId refund x c =>
    cases h.2
    rfl
  | revoke keyId =>
    obtain ⟨r, _, hrow⟩ := h
    cases hrow
  | _ => exact h.elim

theorem writes_of_duty {m : Method} {past : List Event} {e : Event}
    (h : Duty hashKeyId m past e) : WritesOnly m.snapshot e.1.rows := by
  obtain ⟨o, a⟩ := e
  cases o with
  | put row => exact writes_of_puts h.2
  | putSynced row => exact writes_of_commits h.2
  | writeBatch group => exact writes_of_commits h.2
  | _ => exact fun id b hmem => nomatch hmem

/-- Accesses that write only snapshots of the predicate keep it on disk. -/
theorem snapshots_of_access {st mid : Store} {o : Op} {c : Input} {a : o.Ans}
    (hold : SnapshotsAre Q st.rows) (hnew : ∀ id b, (⟨.batch id, b⟩ : Row) ∈ o.rows → Q id b)
    (h : st.access hashKeyId o c = some (a, mid)) : SnapshotsAre Q mid.rows := by
  have hrow : ∀ row ∈ o.rows, (match row.1, row.2 with
      | .batch id, b => Q id b
      | _, _ => True : Prop) := by
    rintro ⟨k, v⟩ hmem
    cases k with
    | batch id => exact hnew id v hmem
    | _ => trivial
  rcases access_rows h with hrows | ⟨row, rfl, hrows⟩ | ⟨row, rfl, hrows⟩ | ⟨group, rfl, hrows⟩
  · rw [hrows]
    exact hold
  · rw [hrows]
    exact DurableStore.All.put hold (hrow row List.mem_cons_self)
  · rw [hrows]
    exact DurableStore.All.commit hold hrow
  · rw [hrows]
    exact DurableStore.All.commit hold hrow

theorem snapshots_of_method {m : Method} {cs : List Input} {st st' : Store} {a : m.Ans}
    (hold : SnapshotsAre Q st.rows) (hnew : ∀ id b, m.snapshot = some (id, b) → Q id b)
    (h : alone hashKeyId (m.prog hashKeyId) cs st = some (a, st')) :
    SnapshotsAre Q st'.rows := by
  refine alone_preserves (fun st => SnapshotsAre Q st.rows) (prog_meets m) (fun _ => trivial) ?_
    hold h
  intro past st o c a mid hduty hacc hst
  exact snapshots_of_access hst (fun id b hmem => hnew id b (writes_of_duty hduty id b hmem)) hacc

/-- No other call of the key store writes a snapshot. -/
theorem snapshots_of_call {c : ApiKeyStore.Call} {cs : List Input} {st st' : Store}
    {r : Option c.Ans} (hold : SnapshotsAre Q st.rows)
    (h : alone hashKeyId (c.prog hashKeyId) cs st = some (r, st')) : SnapshotsAre Q st'.rows := by
  have hmethod : ∀ (m : Method) (f : m.Ans → M (Option c.Ans)), m.snapshot = none →
      (∀ a, ∃ b, f a = pure b) → alone hashKeyId (m.prog hashKeyId >>= f) cs st = some (r, st') →
      SnapshotsAre Q st'.rows := by
    intro m f hnone hf hrun
    obtain ⟨cs₁, cs₂, a, mid, rfl, hm, hrest⟩ := alone_bind hrun
    obtain ⟨b, hb⟩ := hf a
    rw [hb, alone_pure] at hrest
    cases hrest
    exact snapshots_of_method hold (by rw [hnone]; exact nofun) hm
  cases c with
  | insert label balance deposit backing =>
    refine hmethod (.createBalanceKey label balance deposit backing.asU8) _ rfl (fun a => ?_) h
    cases a <;> exact ⟨_, rfl⟩
  | get keyId =>
    refine hmethod (.getBalanceRecord keyId) _ rfl (fun a => ?_) h
    cases a <;> exact ⟨_, rfl⟩
  | debit keyId amount =>
    exact hmethod (.debitBalance keyId amount) _ rfl (fun a => ⟨_, rfl⟩) h
  | refund keyId amount =>
    exact hmethod (.refundBalance keyId amount) _ rfl (fun a => ⟨_, rfl⟩) h
  | revoke keyId => exact hmethod (.revoke keyId) _ rfl (fun a => ⟨_, rfl⟩) h
  | setModelBudget keyId model amount =>
    exact hmethod (.setModelBudget keyId model amount) _ rfl (fun a => ⟨_, rfl⟩) h
  | debitModelBudget keyId model amount =>
    exact hmethod (.debitModelBudget keyId model amount) _ rfl (fun a => ⟨_, rfl⟩) h
  | refundModelBudget keyId model amount =>
    exact hmethod (.refundModelBudget keyId model amount) _ rfl (fun a => ⟨_, rfl⟩) h
  | getModelBudgets keyId =>
    have hscan : (ApiKeyStore.Call.getModelBudgets keyId).prog hashKeyId =
        .op (.scanBudgets (hashKeyId keyId)) fun found => match found with
          | .error _ => .ret (some [])
          | .ok out => .ret (some out) := by
      refine congrArg (Prog.op _) (funext fun found => ?_)
      cases found <;> rfl
    rw [hscan] at h
    obtain ⟨c, rest, found, mid, rfl, hacc, hrest⟩ := alone_op h
    have hmid := snapshots_of_access hold (fun id b hmem => (List.not_mem_nil hmem).elim) hacc
    cases found with
    | error e =>
      cases hrest
      exact hmid
    | ok out =>
      cases hrest
      exact hmid

end Rows
end Gateway.KeyStore

namespace Gateway.ApiKeyStore.Backend
open KeyStore

section Backends
variable {hashKeyId : String → String} {Q : String → PersistedBatch → Prop} {b b' : Backend}

/-- Every snapshot that the backend keeps satisfies the predicate. -/
def Snapshots (b : Backend) (Q : String → PersistedBatch → Prop) : Prop :=
  match b with
  | .memory _ => True
  | .persistent st => SnapshotsAre Q st.rows

theorem Snapshots.mono {Q' : String → PersistedBatch → Prop} (h : b.Snapshots Q)
    (himp : ∀ id s, Q id s → Q' id s) : b.Snapshots Q' := by
  cases b with
  | memory m => trivial
  | persistent st => exact SnapshotsAre.mono h himp

theorem Snapshots.perform {minted : Minted} {cs : List Input} {c : Call} {a : c.Ans}
    (h : b.Snapshots Q) (hrun : b.perform hashKeyId minted cs c = some (a, b')) :
    b'.Snapshots Q := by
  cases b with
  | memory m =>
    simp only [Backend.perform, Option.ite_none_right_eq_some] at hrun
    obtain ⟨_, hrun⟩ := hrun
    cases hrun
    trivial
  | persistent st =>
    obtain ⟨⟨r, st'⟩, halone, hr⟩ := Option.bind_eq_some_iff.1 hrun
    obtain ⟨a', rfl, heq⟩ := Option.map_eq_some_iff.1 hr
    cases heq
    exact snapshots_of_call h halone

theorem Snapshots.method {cs : List Input} {m : Method} {a : m.Ans} (h : b.Snapshots Q)
    (hnew : ∀ id s, m.snapshot = some (id, s) → Q id s)
    (hrun : b.method hashKeyId cs m = some (a, b')) : b'.Snapshots Q := by
  cases b with
  | memory m => cases hrun
  | persistent st =>
    obtain ⟨⟨r, st'⟩, halone, heq⟩ := Option.map_eq_some_iff.1 hrun
    cases heq
    exact snapshots_of_method h hnew halone

/-- What recovery loads are snapshots that are kept. -/
theorem Snapshots.loaded {cs : List Input} {found : List (String × PersistedBatch)}
    (h : b.Snapshots Q) (hrun : b.method hashKeyId cs .loadBatches = some (.ok found, b')) :
    ∀ x ∈ found, Q x.1 x.2 := by
  cases b with
  | memory m => cases hrun
  | persistent st =>
    obtain ⟨⟨r, st'⟩, halone, heq⟩ := Option.map_eq_some_iff.1 hrun
    cases heq
    obtain ⟨c, rest, answer, mid, rfl, hacc, hrest⟩ := alone_op halone
    cases c <;> cases hacc
    · cases hrest
      rintro ⟨id, s⟩ hmem
      exact SnapshotsAre.get h (mem_batchRows.1 hmem)
    · cases hrest

end Backends
end Gateway.ApiKeyStore.Backend
