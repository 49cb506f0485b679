import CitrateGateway.Gateway.KeyStore

/-!
# What one key store call does

A call writes at most one group of rows. A balance row it writes is the row it read under the
lock of that key, with the change of its method; a call that fails has written nothing, except
that settling a batch that already was settled refreshes the snapshot first.
-/

namespace Gateway.KeyStore
set_option autoImplicit false
open Words Effects Durable

section Histories

/-- The rows of a write. -/
def Op.rows : Op → List Row
  | .put row | .putSynced row => [row]
  | .writeBatch group => group
  | _ => []

/-- The rows an event wrote. -/
def wrote : Event → List Row
  | ⟨.put row, .ok ()⟩ => [row]
  | ⟨.putSynced row, .ok ()⟩ => [row]
  | ⟨.writeBatch group, .ok ()⟩ => group
  | _ => []

def written (h : List Event) : List Row := h.flatMap wrote

/-- The key whose lock the call holds. -/
def held : List Event → Option String
  | [] => none
  | ⟨.lock h, _⟩ :: _ => some h
  | ⟨.unlock _, _⟩ :: _ => none
  | _ :: l => held l

/-- The balance row the call read since it took the lock. -/
def lastRead : List Event → Option (String × BalanceRecord)
  | [] => none
  | ⟨.get (.bal h), .ok (some r)⟩ :: _ => some (h, r)
  | ⟨.lock _, _⟩ :: _ => none
  | ⟨.unlock _, _⟩ :: _ => none
  | _ :: l => lastRead l

/-- The store refused the access. -/
def failed : Event → Bool
  | ⟨.get _, .error _⟩ | ⟨.contains _, .error _⟩ | ⟨.put _, .error _⟩
  | ⟨.putSynced _, .error _⟩ | ⟨.writeBatch _, .error _⟩ | ⟨.scanBatches, .error _⟩
  | ⟨.scanBudgets _, .error _⟩ => true
  | _ => false

/-- The row was read under the lock that the call still holds. -/
def Locked (past : List Event) (h : String) (r : BalanceRecord) : Prop :=
  held past = some h ∧ lastRead past = some (h, r)

@[simp] theorem written_nil : written [] = [] := rfl

@[simp] theorem written_cons (e : Event) (h : List Event) :
    written (e :: h) = wrote e ++ written h := rfl

end Histories

section Promise
variable (hashKeyId : String → String)

/-- The rows that a method may commit. -/
def Method.Commits (m : Method) (past : List Event) (group : List Row) : Prop :=
  match m with
  | .createBalanceKey label balance depositAddress backing =>
    ∃ uuid now, ⟨.newUuid, uuid⟩ ∈ past ∧
      group = [⟨.bal (tokenHash hashKeyId uuid),
        ⟨label, now, false, backing, depositAddress, balance⟩⟩]
  | .debitBalance keyId amount =>
    ∃ r, Locked past (hashKeyId keyId) r ∧ r.revoked = false ∧
      amount.toNat ≤ r.balance.toNat ∧
      group = [⟨.bal (hashKeyId keyId), { r with balance := r.balance - amount }⟩]
  | .refundBalance keyId amount =>
    ∃ r, Locked past (hashKeyId keyId) r ∧
      group = [⟨.bal (hashKeyId keyId), { r with balance := saturatingAdd r.balance amount }⟩]
  | .settleBatchRefund keyId refund id b =>
    ∃ r, Locked past (hashKeyId keyId) r ∧ ⟨.contains (.batchset id), .ok true⟩ ∉ past ∧
      group = [⟨.bal (hashKeyId keyId), { r with balance := saturatingAdd r.balance refund }⟩,
        ⟨.batch id, b⟩, ⟨.batchset id, ()⟩]
  | .revoke keyId =>
    ∃ r, Locked past (hashKeyId keyId) r ∧
      group = [⟨.bal (hashKeyId keyId), { r with revoked := true }⟩]
  | .markBatchSettled id b => group = [⟨.batch id, b⟩, ⟨.batchset id, ()⟩]
  | .recordRefundOwed id _ _ b =>
    ∃ owed, group = [⟨.batch id, b⟩, ⟨.batchset id, ()⟩, ⟨.refundowed id, owed⟩]
  | .setModelBudget keyId model _ | .debitModelBudget keyId model _
  | .refundModelBudget keyId model _ =>
    ∃ v, group = [⟨.mbudget (hashKeyId keyId) model, v⟩]
  | .getBalanceRecord _ | .persistBatch _ _ | .loadBatches | .batchWasSettled _ => False

/-- The row that a method may write unsynced. -/
def Method.Puts (m : Method) (past : List Event) (row : Row) : Prop :=
  match m with
  | .persistBatch id b => row = ⟨.batch id, b⟩
  | .settleBatchRefund _ _ id b =>
    ⟨.contains (.batchset id), .ok true⟩ ∈ past ∧ row = ⟨.batch id, b⟩
  | .revoke keyId =>
    ∃ r, ⟨.get (.record (hashKeyId keyId)), .ok (some r)⟩ ∈ past ∧
      row = ⟨.record (hashKeyId keyId), { r with revoked := true }⟩
  | _ => False

def Duty (m : Method) (past : List Event) (e : Event) : Prop :=
  match e.1 with
  | .lock _ => held past = none
  | .unlock h => held past = some h
  | .put row => written past = [] ∧ m.Puts hashKeyId past row
  | .putSynced row => written past = [] ∧ m.Commits hashKeyId past [row]
  | .writeBatch group => written past = [] ∧ m.Commits hashKeyId past group
  | .contains _ => written past = []
  | .newUuid => past = []
  | .unlockPool => False
  | _ => True

def Method.isOk : (m : Method) → m.Ans → Bool
  | .createBalanceKey _ _ _ _, a => a.isOk
  | .getBalanceRecord _, a => a.isOk
  | .debitBalance _ _, a | .refundBalance _ _, a | .settleBatchRefund _ _ _ _, a => a.isOk
  | .loadBatches, a => a.isOk
  | .batchWasSettled _, a => a.isOk
  | .persistBatch _ _, a | .markBatchSettled _ _, a | .recordRefundOwed _ _ _ _, a
  | .setModelBudget _ _ _, a | .refundModelBudget _ _ _, a | .revoke _, a => a.isOk
  | .debitModelBudget _ _ _, a => a.isOk

/-- A settlement of a settled batch: its snapshot alone was written. -/
def Method.Refreshed (m : Method) (past : List Event) : Prop :=
  match m with
  | .settleBatchRefund _ _ id b =>
    ⟨.contains (.batchset id), .ok true⟩ ∈ past ∧ written past = [⟨.batch id, b⟩]
  | _ => False

/-- Methods that succeed only by writing. -/
def Method.isWrite : Method → Bool
  | .getBalanceRecord _ | .loadBatches | .batchWasSettled _ | .debitModelBudget _ _ _
  | .refundModelBudget _ _ _ => false
  | _ => true

/-- A credit fails only for the store, or for want of the key. -/
def Method.Hindered (m : Method) (past : List Event) : Prop :=
  match m with
  | .refundBalance keyId _ | .settleBatchRefund keyId _ _ _ =>
    past.any failed = true ∨ ⟨.get (.bal (hashKeyId keyId)), .ok none⟩ ∈ past
  | _ => True

/-- The key that a creation hands out is the one it minted. -/
def Method.Names (m : Method) (past : List Event) (a : m.Ans) : Prop :=
  match m, a with
  | .createBalanceKey _ _ _ _, .ok id => ∃ uuid, ⟨.newUuid, uuid⟩ ∈ past ∧ id = "cgk_" ++ uuid
  | _, _ => True

structure Method.Returned (m : Method) (past : List Event) (a : m.Ans) : Prop where
  of_ok : m.isOk a = true → m.isWrite = true → written past ≠ []
  of_error : m.isOk a = false → written past = [] ∨ m.Refreshed past
  hindered : m.isOk a = false → m.Hindered hashKeyId past
  named : m.Names past a

abbrev AnyEvent : Event → Prop := fun _ => True

variable {hashKeyId} {m : Method} {past : List Event}

theorem Method.Returned.unlock {a : m.Ans} (h : m.Returned hashKeyId past a) (hash : String) :
    m.Returned hashKeyId (⟨.unlock hash, ()⟩ :: past) a where
  of_ok := h.of_ok
  of_error hno := (h.of_error hno).imp id fun href => by
    cases m <;> first | exact href.elim | exact ⟨List.mem_cons_of_mem _ href.1, href.2⟩
  hindered hno := by
    have hh := h.hindered hno
    cases m <;> first | trivial | exact hh.imp id (List.mem_cons_of_mem _)
  named := by
    have hn := h.named
    cases m with
    | createBalanceKey =>
      cases a with
      | error e => trivial
      | ok id =>
        obtain ⟨uuid, hmem, hid⟩ := hn
        exact ⟨uuid, List.mem_cons_of_mem _ hmem, hid⟩
    | _ => trivial

/-- The guard of a lock is given up whatever the body returned. -/
theorem withLock_meets {h : String} {body : M m.Ans} (hfree : held past = none)
    (hbody : body.Meets AnyEvent (Duty hashKeyId m)
      (fun past' a => held past' = some h ∧ m.Returned hashKeyId past' a) (⟨.lock h, ()⟩ :: past)) :
    (withLock h body).Meets AnyEvent (Duty hashKeyId m) (m.Returned hashKeyId) past := by
  refine Prog.meets_perform_bind.2 fun _ _ => ⟨hfree, ?_⟩
  refine Prog.Meets.bind hbody ?_
  rintro past' a ⟨hheld, hret⟩
  exact Prog.meets_perform_bind.2 fun _ _ => ⟨hheld, hret.unlock h⟩

theorem names_of_error {a : m.Ans} (hno : m.isOk a = false) : m.Names past a := by
  cases m with
  | createBalanceKey =>
    cases a with
    | error e => trivial
    | ok id => cases hno
  | _ => trivial

theorem returned_error {a : m.Ans} (hno : m.isOk a = false) (hw : written past = [])
    (hh : m.Hindered hashKeyId past) : m.Returned hashKeyId past a :=
  ⟨fun hok => by simp [hno] at hok, fun _ => Or.inl hw, fun _ => hh, names_of_error hno⟩

theorem returned_wrote {a : m.Ans} (hok : m.isOk a = true) (hw : written past ≠ [])
    (hnamed : m.Names past a) : m.Returned hashKeyId past a :=
  ⟨fun _ _ => hw, fun hno => by simp [hok] at hno, fun hno => by simp [hok] at hno, hnamed⟩

theorem returned_refreshed {keyId id : String} {refund : U256} {b : PersistedBatch}
    {a : Except BalanceError U256} (hno : a.isOk = false)
    (hfound : ⟨.contains (.batchset id), .ok true⟩ ∈ past) (hw : written past = [⟨.batch id, b⟩])
    (hh : (Method.settleBatchRefund keyId refund id b).Hindered hashKeyId past) :
    (Method.settleBatchRefund keyId refund id b).Returned hashKeyId past a where
  of_ok hok := by simp [Method.isOk, hno] at hok
  of_error _ := Or.inr ⟨hfound, hw⟩
  hindered _ := hh
  named := trivial

theorem returned_read {a : m.Ans} (hread : m.isWrite = false) (hw : written past = []) :
    m.Returned hashKeyId past a where
  of_ok _ h := by simp [hread] at h
  of_error _ := Or.inl hw
  hindered _ := by cases m <;> trivial
  named := by cases m <;> trivial

theorem createBalanceKey_meets (label : String) (balance : U256) (depositAddress : H160)
    (backing : UInt8) :
    (createBalanceKey hashKeyId label balance depositAddress backing).Meets AnyEvent
      (Duty hashKeyId (.createBalanceKey label balance depositAddress backing))
      ((Method.createBalanceKey label balance depositAddress backing).Returned hashKeyId) [] := by
  refine Prog.meets_perform_bind.2 fun uuid _ => ⟨rfl, ?_⟩
  refine Prog.meets_perform_bind.2 fun now _ => ⟨trivial, ?_⟩
  refine Prog.meets_perform_bind.2 fun answer _ => ⟨⟨rfl, uuid, now, by simp, rfl⟩, ?_⟩
  cases answer with
  | error e => exact returned_error rfl rfl trivial
  | ok u => exact returned_wrote rfl (by simp [wrote]) ⟨uuid, by simp, rfl⟩

theorem debitBalance_meets (keyId : String) (amount : U256) :
    (debitBalance hashKeyId keyId amount).Meets AnyEvent
      (Duty hashKeyId (.debitBalance keyId amount))
      ((Method.debitBalance keyId amount).Returned hashKeyId) [] := by
  refine withLock_meets (m := .debitBalance keyId amount) rfl ?_
  refine Prog.meets_perform_bind.2 fun answer _ => ⟨trivial, ?_⟩
  match answer with
  | .error e => exact ⟨rfl, returned_error rfl rfl trivial⟩
  | .ok none => exact ⟨rfl, returned_error rfl rfl trivial⟩
  | .ok (some r) =>
    simp only
    split
    · exact ⟨rfl, returned_error rfl rfl trivial⟩
    · rename_i hrevoked
      split
      · exact ⟨rfl, returned_error rfl rfl trivial⟩
      · rename_i hamount
        refine Prog.meets_perform_bind.2 fun w _ => ⟨⟨rfl, r, ⟨rfl, rfl⟩, ?_, ?_, rfl⟩, ?_⟩
        · simpa using hrevoked
        · omega
        · cases w with
          | error e => exact ⟨rfl, returned_error rfl rfl trivial⟩
          | ok u => exact ⟨rfl, returned_wrote rfl (by simp [wrote]) trivial⟩

theorem refundBalance_meets (keyId : String) (amount : U256) :
    (refundBalance hashKeyId keyId amount).Meets AnyEvent
      (Duty hashKeyId (.refundBalance keyId amount))
      ((Method.refundBalance keyId amount).Returned hashKeyId) [] := by
  refine withLock_meets (m := .refundBalance keyId amount) rfl ?_
  refine Prog.meets_perform_bind.2 fun answer _ => ⟨trivial, ?_⟩
  match answer with
  | .error e => exact ⟨rfl, returned_error rfl rfl (Or.inl rfl)⟩
  | .ok none => exact ⟨rfl, returned_error rfl rfl (Or.inr List.mem_cons_self)⟩
  | .ok (some r) =>
    refine Prog.meets_perform_bind.2 fun w _ => ⟨⟨rfl, r, ⟨rfl, rfl⟩, rfl⟩, ?_⟩
    cases w with
    | error e => exact ⟨rfl, returned_error rfl rfl (Or.inl rfl)⟩
    | ok u => exact ⟨rfl, returned_wrote rfl (by simp [wrote]) trivial⟩

theorem settleBatchRefund_meets (keyId : String) (refund : U256) (id : String)
    (b : PersistedBatch) :
    (settleBatchRefund hashKeyId keyId refund id b).Meets AnyEvent
      (Duty hashKeyId (.settleBatchRefund keyId refund id b))
      ((Method.settleBatchRefund keyId refund id b).Returned hashKeyId) [] := by
  refine withLock_meets (m := .settleBatchRefund keyId refund id b) rfl ?_
  refine Prog.meets_perform_bind.2 fun found _ => ⟨rfl, ?_⟩
  match found with
  | .error e => exact ⟨rfl, returned_error rfl rfl (Or.inl rfl)⟩
  | .ok true =>
    refine Prog.meets_perform_bind.2 fun w _ => ⟨⟨rfl, by simp, rfl⟩, ?_⟩
    cases w with
    | error e => exact ⟨rfl, returned_error rfl rfl (Or.inl rfl)⟩
    | ok u =>
      refine Prog.meets_perform_bind.2 fun answer _ => ⟨trivial, ?_⟩
      match answer with
      | .error e => exact ⟨rfl, returned_refreshed rfl (by simp) rfl (Or.inl rfl)⟩
      | .ok none => exact ⟨rfl, returned_refreshed rfl (by simp) rfl (Or.inr List.mem_cons_self)⟩
      | .ok (some r) => exact ⟨rfl, returned_wrote rfl (by simp [wrote]) trivial⟩
  | .ok false =>
    refine Prog.meets_perform_bind.2 fun answer _ => ⟨trivial, ?_⟩
    match answer with
    | .error e => exact ⟨rfl, returned_error rfl rfl (Or.inl rfl)⟩
    | .ok none => exact ⟨rfl, returned_error rfl rfl (Or.inr List.mem_cons_self)⟩
    | .ok (some r) =>
      refine Prog.meets_perform_bind.2 fun w _ => ⟨⟨rfl, r, ⟨rfl, rfl⟩, by simp, rfl⟩, ?_⟩
      cases w with
      | error e => exact ⟨rfl, returned_error rfl rfl (Or.inl rfl)⟩
      | ok u => exact ⟨rfl, returned_wrote rfl (by simp [wrote]) trivial⟩

theorem revoke_meets (keyId : String) :
    (revoke hashKeyId keyId).Meets AnyEvent (Duty hashKeyId (.revoke keyId))
      ((Method.revoke keyId).Returned hashKeyId) [] := by
  refine Prog.meets_perform_bind.2 fun found _ => ⟨trivial, ?_⟩
  match found with
  | .error e => exact returned_error rfl rfl trivial
  | .ok (some r) =>
    refine Prog.meets_perform_bind.2 fun w _ => ⟨⟨rfl, r, by simp, rfl⟩, ?_⟩
    cases w with
    | error e => exact returned_error rfl rfl trivial
    | ok u => exact returned_wrote rfl (by simp [wrote]) trivial
  | .ok none =>
    refine withLock_meets (m := .revoke keyId) rfl ?_
    refine Prog.meets_perform_bind.2 fun answer _ => ⟨trivial, ?_⟩
    match answer with
    | .error e => exact ⟨rfl, returned_error rfl rfl trivial⟩
    | .ok none => exact ⟨rfl, returned_error rfl rfl trivial⟩
    | .ok (some r) =>
      refine Prog.meets_perform_bind.2 fun w _ => ⟨⟨rfl, r, ⟨rfl, rfl⟩, rfl⟩, ?_⟩
      cases w with
      | error e => exact ⟨rfl, returned_error rfl rfl trivial⟩
      | ok u => exact ⟨rfl, returned_wrote rfl (by simp [wrote]) trivial⟩

theorem writeBatch_meets {group : List Row} (hnew : group ≠ []) (hpast : written past = [])
    (hcommits : m.Commits hashKeyId past group) {f : Except ValErr Unit → m.Ans}
    (herror : ∀ e, m.isOk (f (.error e)) = false) (hok : m.isOk (f (.ok ())) = true)
    (hh : ∀ h, m.Hindered hashKeyId h) (hnamed : ∀ h a, m.Names h a) :
    (writeBatch group >>= fun r => pure (f r)).Meets AnyEvent (Duty hashKeyId m)
      (m.Returned hashKeyId) past := by
  refine Prog.meets_perform_bind.2 fun w _ => ⟨⟨hpast, hcommits⟩, ?_⟩
  cases w with
  | error e => exact returned_error (herror e) hpast (hh _)
  | ok u => exact returned_wrote hok (by simp [wrote, hnew]) (hnamed _ _)

theorem debitModelBudget_meets (keyId model : String) (amount : U256) :
    (debitModelBudget hashKeyId keyId model amount).Meets AnyEvent
      (Duty hashKeyId (.debitModelBudget keyId model amount))
      ((Method.debitModelBudget keyId model amount).Returned hashKeyId) [] := by
  refine withLock_meets (m := .debitModelBudget keyId model amount) rfl ?_
  refine Prog.meets_perform_bind.2 fun answer _ => ⟨trivial, ?_⟩
  match answer with
  | .error e => exact ⟨rfl, returned_error rfl rfl trivial⟩
  | .ok none => exact ⟨rfl, returned_read rfl rfl⟩
  | .ok (some cur) =>
    simp only
    split
    · exact ⟨rfl, returned_error rfl rfl trivial⟩
    · refine Prog.meets_perform_bind.2 fun w _ => ⟨⟨rfl, _, rfl⟩, ?_⟩
      cases w with
      | error e => exact ⟨rfl, returned_error rfl rfl trivial⟩
      | ok u => exact ⟨rfl, returned_wrote rfl (by simp [wrote]) trivial⟩

theorem refundModelBudget_meets (keyId model : String) (amount : U256) :
    (refundModelBudget hashKeyId keyId model amount).Meets AnyEvent
      (Duty hashKeyId (.refundModelBudget keyId model amount))
      ((Method.refundModelBudget keyId model amount).Returned hashKeyId) [] := by
  refine withLock_meets (m := .refundModelBudget keyId model amount) rfl ?_
  refine Prog.meets_perform_bind.2 fun answer _ => ⟨trivial, ?_⟩
  match answer with
  | .error e => exact ⟨rfl, returned_error rfl rfl trivial⟩
  | .ok none => exact ⟨rfl, returned_read rfl rfl⟩
  | .ok (some cur) =>
    refine Prog.meets_perform_bind.2 fun w _ => ⟨⟨rfl, _, rfl⟩, ?_⟩
    cases w with
    | error e => exact ⟨rfl, returned_error rfl rfl trivial⟩
    | ok u => exact ⟨rfl, returned_wrote rfl (by simp [wrote]) trivial⟩

theorem prog_meets (m : Method) :
    (m.prog hashKeyId).Meets AnyEvent (Duty hashKeyId m) (m.Returned hashKeyId) [] := by
  cases m with
  | createBalanceKey label balance depositAddress backing =>
    exact createBalanceKey_meets label balance depositAddress backing
  | debitBalance keyId amount => exact debitBalance_meets keyId amount
  | refundBalance keyId amount => exact refundBalance_meets keyId amount
  | settleBatchRefund keyId refund id b => exact settleBatchRefund_meets keyId refund id b
  | revoke keyId => exact revoke_meets keyId
  | debitModelBudget keyId model amount => exact debitModelBudget_meets keyId model amount
  | refundModelBudget keyId model amount => exact refundModelBudget_meets keyId model amount
  | getBalanceRecord keyId =>
    refine Prog.meets_perform_bind.2 fun answer _ => ⟨trivial, ?_⟩
    cases answer <;> exact returned_read rfl rfl
  | loadBatches =>
    refine Prog.meets_perform_bind.2 fun answer _ => ⟨trivial, ?_⟩
    cases answer <;> exact returned_read rfl rfl
  | batchWasSettled id =>
    refine Prog.meets_perform_bind.2 fun answer _ => ⟨rfl, ?_⟩
    cases answer <;> exact returned_read rfl rfl
  | persistBatch id b =>
    refine Prog.meets_perform_bind.2 fun w _ => ⟨⟨rfl, rfl⟩, ?_⟩
    cases w with
    | error e => exact returned_error rfl rfl trivial
    | ok u => exact returned_wrote rfl (by simp [wrote]) trivial
  | markBatchSettled id b =>
    exact writeBatch_meets (m := .markBatchSettled id b) (by simp) rfl rfl (fun _ => rfl) rfl
      (fun _ => trivial) fun _ _ => trivial
  | recordRefundOwed id payer refund b =>
    refine Prog.meets_perform_bind.2 fun now _ => ⟨trivial, ?_⟩
    exact writeBatch_meets (m := .recordRefundOwed id payer refund b) (by simp) rfl ⟨_, rfl⟩
      (fun _ => rfl) rfl (fun _ => trivial) fun _ _ => trivial
  | setModelBudget keyId model amount =>
    refine Prog.meets_perform_bind.2 fun w _ => ⟨⟨rfl, _, rfl⟩, ?_⟩
    cases w with
    | error e => exact returned_error rfl rfl trivial
    | ok u => exact returned_wrote rfl (by simp [wrote]) trivial

def contract : System.Contract (calls hashKeyId) where
  rely := AnyEvent
  guar := Duty hashKeyId
  post := fun m past r => ∃ a, r = ⟨m, a⟩ ∧ m.Returned hashKeyId past a
  meets := fun m => (prog_meets m).bind fun _ a hret => ⟨a, rfl, hret⟩

end Promise
end Gateway.KeyStore
