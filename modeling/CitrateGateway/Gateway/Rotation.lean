import CitrateGateway.Gateway.Consumption

/-!
# What one rotation does

A rotation reads the mapping of its account, mints a key, revokes the key that was mapped and
maps the new one, in this order and under the account's lock. No other call maps a key, and no
call takes a revocation back.
-/

namespace Gateway.KeyStore
set_option autoImplicit false
open Words Effects Durable

section Progress

/-- How far a call is: what the mapping said, what it minted, and what it has written. -/
structure Progress where
  previous : Option (Option String)
  uuid : Option String
  recorded : Bool
  retired : List String
  missing : List String
  mapped : Bool

def Progress.next (v : Progress) : Event → Progress
  | ⟨.get (.memberMap _), .ok p⟩ => { v with previous := some p }
  | ⟨.newUuid, u⟩ => { v with uuid := some u }
  | ⟨.put ⟨.record h, r⟩, .ok ()⟩ =>
    if (r : KeyRecord).revoked then { v with retired := h :: v.retired }
    else { v with recorded := true }
  | ⟨.get (.record h), .ok none⟩ => { v with missing := h :: v.missing }
  | ⟨.putSynced ⟨.memberMap _, _⟩, .ok ()⟩ => { v with mapped := true }
  | _ => v

def progress : List Event → Progress
  | [] => ⟨none, none, false, [], [], false⟩
  | e :: past => (progress past).next e

section Next

/-- Everything one event can do to the progress of a rotation. -/
inductive Progress.Advanced (v : Progress) : Event → Progress → Prop where
  | read (a : String) (p : Option String) :
      Progress.Advanced v ⟨.get (.memberMap a), .ok p⟩ { v with previous := some p }
  | minted (u : String) : Progress.Advanced v ⟨.newUuid, u⟩ { v with uuid := some u }
  | retired (hash : String) (r : KeyRecord) (hrevoked : r.revoked = true) :
      Progress.Advanced v ⟨.put ⟨.record hash, r⟩, .ok ()⟩ { v with retired := hash :: v.retired }
  | recorded (hash : String) (r : KeyRecord) (hrevoked : r.revoked = false) :
      Progress.Advanced v ⟨.put ⟨.record hash, r⟩, .ok ()⟩ { v with recorded := true }
  | missing (hash : String) :
      Progress.Advanced v ⟨.get (.record hash), .ok none⟩ { v with missing := hash :: v.missing }
  | mapped (a hash : String) :
      Progress.Advanced v ⟨.putSynced ⟨.memberMap a, hash⟩, .ok ()⟩ { v with mapped := true }
  | quiet (e : Event) : Progress.Advanced v e v

theorem next_cases (v : Progress) (e : Event) : v.Advanced e (v.next e) := by
  unfold Progress.next
  split
  · exact .read _ _
  · exact .minted _
  · rename_i hash r
    split
    · rename_i hrevoked
      exact .retired hash r hrevoked
    · rename_i hrevoked
      exact .recorded hash r (by simpa using hrevoked)
  · exact .missing _
  · exact .mapped _ _
  · exact .quiet _

variable {v : Progress} {e : Event}

theorem uuid_next (h : v.uuid.isSome = true) (e : Event) : (v.next e).uuid.isSome = true := by
  have hnext := next_cases v e
  generalize v.next e = w at hnext ⊢
  cases hnext with
  | minted u => rfl
  | _ => exact h

theorem uuid_of_next {u : String} (h : (v.next e).uuid = some u) :
    v.uuid = some u ∨ e = ⟨.newUuid, u⟩ := by
  have hnext := next_cases v e
  generalize v.next e = w at hnext h
  cases hnext with
  | minted u' =>
    cases h
    exact Or.inr rfl
  | _ => exact Or.inl h

theorem recorded_of_next (h : (v.next e).recorded = true) : v.recorded = true ∨
    ∃ hash r, e = ⟨.put ⟨.record hash, r⟩, .ok ()⟩ ∧ r.revoked = false := by
  have hnext := next_cases v e
  generalize v.next e = w at hnext h
  cases hnext with
  | recorded hash r hrevoked => exact Or.inr ⟨hash, r, rfl, hrevoked⟩
  | _ => exact Or.inl h

theorem recorded_next (h : v.recorded = true) (e : Event) : (v.next e).recorded = true := by
  have hnext := next_cases v e
  generalize v.next e = w at hnext ⊢
  cases hnext with
  | recorded hash r hrevoked => rfl
  | _ => exact h

theorem previous_of_next {p : Option String} (h : (v.next e).previous = some p) :
    v.previous = some p ∨ ∃ a, e = ⟨.get (.memberMap a), .ok p⟩ := by
  have hnext := next_cases v e
  generalize v.next e = w at hnext h
  cases hnext with
  | read a p' =>
    cases h
    exact Or.inr ⟨a, rfl⟩
  | _ => exact Or.inl h

theorem retired_of_next {hash : String} (h : hash ∈ (v.next e).retired) : hash ∈ v.retired ∨
    ∃ r, e = ⟨.put ⟨.record hash, r⟩, .ok ()⟩ ∧ r.revoked = true := by
  have hnext := next_cases v e
  generalize v.next e = w at hnext h
  cases hnext with
  | retired hash' r hrevoked =>
    rcases List.mem_cons.1 h with rfl | h
    · exact Or.inr ⟨r, rfl, hrevoked⟩
    · exact Or.inl h
  | _ => exact Or.inl h

theorem missing_of_next {hash : String} (h : hash ∈ (v.next e).missing) : hash ∈ v.missing ∨
    e = ⟨.get (.record hash), .ok none⟩ := by
  have hnext := next_cases v e
  generalize v.next e = w at hnext h
  cases hnext with
  | missing hash' =>
    rcases List.mem_cons.1 h with rfl | h
    · exact Or.inr rfl
    · exact Or.inl h
  | _ => exact Or.inl h

theorem mapped_of_next (h : (v.next e).mapped = true) : v.mapped = true ∨
    ∃ a hash, e = ⟨.putSynced ⟨.memberMap a, hash⟩, .ok ()⟩ := by
  have hnext := next_cases v e
  generalize v.next e = w at hnext h
  cases hnext with
  | mapped a hash => exact Or.inr ⟨a, hash, rfl⟩
  | _ => exact Or.inl h

theorem mapped_next (h : v.mapped = true) (e : Event) : (v.next e).mapped = true := by
  have hnext := next_cases v e
  generalize v.next e = w at hnext ⊢
  cases hnext with
  | mapped a hash => rfl
  | _ => exact h

end Next
end Progress

section Promise
variable (hashKeyId : String → String)

/-- A call records the key that it minted, once. -/
def Mints (past : List Event) (h : String) (r : KeyRecord) : Prop :=
  r.revoked = false ∧ (progress past).recorded = false ∧
    (progress past).uuid.map (tokenHash hashKeyId) = some h

/-- The rotation may map the hash now. -/
structure Mapping (a : String) (past : List Event) (h : String) : Prop where
  held : 0 < depth (.key (memberMapKey a)) past
  recorded : (progress past).recorded = true
  minted : (progress past).uuid.map (tokenHash hashKeyId) = some h
  retired : ∃ p, (progress past).previous = some p ∧
    ∀ old, p = some old → old ∈ (progress past).retired ∨ old ∈ (progress past).missing

def RotateDuty (a : String) (past : List Event) (e : Event) : Prop :=
  ((progress past).mapped = true → e.1 = .unlock (memberMapKey a)) ∧
  match e.1 with
  | .get (.memberMap a') => a' = a ∧ 0 < depth (.key (memberMapKey a)) past ∧
      (progress past).previous = none
  | .get (.record h) => (progress past).previous = some (some h)
  | .newUuid => (progress past).uuid = none
  | .lock _ => (progress past).previous = none ∨ ∃ h, h ∈ (progress past).missing
  | .put ⟨.record h, r⟩ => Mints hashKeyId past h r ∨
      (r.revoked = true ∧ (progress past).previous = some (some h))
  | .putSynced ⟨.memberMap a', h⟩ => a' = a ∧ Mapping hashKeyId a past h
  | .putSynced ⟨.bal h, _⟩ => h ∈ (progress past).missing
  | .put _ | .putSynced _ | .writeBatch _ => False
  | _ => True

/-- What every call keeps to. -/
def ProxyMethod.RowDuty (m : ProxyMethod) (past : List Event) (e : Event) : Prop :=
  match m with
  | .rotateMemberKey a _ _ => RotateDuty hashKeyId a past e
  | _ =>
    match e.1 with
    | .newUuid => (progress past).uuid = none
    | .put ⟨.record h, r⟩ => Mints hashKeyId past h r ∨ r.revoked = true
    | .put ⟨.quota _ _, _⟩ | .putSynced ⟨.bal _, _⟩ => True
    | .put _ | .putSynced _ | .writeBatch _ => False
    | _ => True

/-- A rotation that returns a token has mapped its hash. -/
def ProxyMethod.Handed : (m : ProxyMethod) → List Event → m.Ans → Prop
  | .rotateMemberKey _ _ _, past, .ok id => (progress past).mapped = true ∧
      ∃ u, id = "cgk_" ++ u ∧ (progress past).uuid = some u
  | _, _, _ => True

variable {hashKeyId} {past : List Event}

abbrev Rotating {α : Type} (hashKeyId : String → String) (a : String) (p : M α)
    (post : List Event → α → Prop) (past : List Event) : Prop :=
  p.Meets AnyEvent (RotateDuty hashKeyId a) post past

theorem createKey_rotating {a : String} {v : Progress} (label : String) (quotaRps : UInt32)
    (dailyQuota : UInt64) (hv : progress past = v) (huuid : v.uuid = none)
    (hrecorded : v.recorded = false) (hmapped : v.mapped = false) :
    Rotating hashKeyId a (createKey hashKeyId label quotaRps dailyQuota) (fun past' r =>
      depth (.key (memberMapKey a)) past' = depth (.key (memberMapKey a)) past ∧
        match r with
        | .ok id => ∃ u, id = "cgk_" ++ u ∧
            progress past' = { v with uuid := some u, recorded := true }
        | .error _ => True) past := by
  subst hv
  refine Prog.meets_perform_bind.2 fun u _ => ⟨⟨fun h => by simp [hmapped] at h, huuid⟩, ?_⟩
  refine Prog.meets_perform_bind.2 fun now _ => ⟨⟨fun h => ?_, trivial⟩, ?_⟩
  · simp [progress, Progress.next, hmapped] at h
  refine Prog.meets_perform_bind.2 fun w _ => ⟨⟨fun h => ?_, Or.inl ⟨rfl, ?_, ?_⟩⟩, ?_⟩
  · simp [progress, Progress.next, hmapped] at h
  · simp [progress, Progress.next, hrecorded]
  · simp [progress, Progress.next, tokenHash]
  · cases w with
    | error e => exact ⟨rfl, trivial⟩
    | ok w => exact ⟨rfl, u, rfl, by simp [progress, Progress.next]⟩

/-- Only the lists of what was revoked and what was not there have grown. -/
def Settled (v : Progress) (old : Option String) (past : List Event) : Prop :=
  ∃ retired missing, progress past = { v with retired := retired, missing := missing } ∧
    ∀ h, old = some h → h ∈ retired ∨ h ∈ missing

theorem revokeHash_rotating {a old : String} {v : Progress} (hv : progress past = v)
    (hprevious : v.previous = some (some old)) (hmapped : v.mapped = false) :
    Rotating hashKeyId a (revokeHash old) (fun past' r =>
      r = .ok () ∨ r = .error .unknown → Settled v (some old) past') past := by
  subst hv
  have hnot : ∀ {past' : List Event} {o : Op}, progress past' = progress past ∨
      progress past' = { progress past with missing := old :: (progress past).missing } →
        (progress past').mapped = true → o = .unlock (memberMapKey a) := by
    rintro past' o (h | h) hm <;> simp [h, hmapped] at hm
  refine Prog.meets_perform_bind.2 fun found _ => ⟨⟨hnot (Or.inl rfl), hprevious⟩, ?_⟩
  match found with
  | .error (.db msg) => rintro (h | h) <;> cases h
  | .error (.crypt e) => rintro (h | h) <;> cases h
  | .ok (some r) =>
    refine Prog.meets_perform_bind.2 fun w _ =>
      ⟨⟨hnot (Or.inl rfl), Or.inr ⟨rfl, hprevious⟩⟩, fun hw => ?_⟩
    cases w with
    | error e => cases e <;> rcases hw with h | h <;> cases h
    | ok w =>
      refine ⟨old :: (progress past).retired, (progress past).missing, ?_, fun h hold => Or.inl ?_⟩
      · simp [progress, Progress.next]
      · cases hold
        exact List.mem_cons_self
  | .ok none =>
    have hsettled : ∀ past', progress past' =
        { progress past with missing := old :: (progress past).missing } →
          Settled (progress past) (some old) past' := fun past' h =>
      ⟨(progress past).retired, old :: (progress past).missing, h, fun h hold => Or.inr (by
        cases hold
        exact List.mem_cons_self)⟩
    refine Prog.meets_perform_bind.2 fun _ _ =>
      ⟨⟨hnot (Or.inr rfl), Or.inr ⟨old, List.mem_cons_self⟩⟩, ?_⟩
    rw [Prog.meets_bind]
    refine Prog.meets_perform_bind.2 fun answer _ => ⟨⟨hnot (Or.inr rfl), trivial⟩, ?_⟩
    match answer with
    | .error e =>
      exact Prog.meets_perform_bind.2 fun _ _ =>
        ⟨⟨hnot (Or.inr rfl), trivial⟩, fun _ => hsettled _ rfl⟩
    | .ok none =>
      exact Prog.meets_perform_bind.2 fun _ _ =>
        ⟨⟨hnot (Or.inr rfl), trivial⟩, fun _ => hsettled _ rfl⟩
    | .ok (some r) =>
      refine Prog.meets_perform_bind.2 fun w _ => ⟨⟨hnot (Or.inr rfl), List.mem_cons_self⟩, ?_⟩
      refine Prog.meets_perform_bind.2 fun _ _ => ⟨⟨hnot (Or.inr ?_), trivial⟩, fun _ => ?_⟩
      · cases w <;> rfl
      · cases w <;> exact hsettled _ rfl

theorem retire_rotating {a : String} {previous : Option String} {v : Progress}
    (hv : progress past = v) (hprevious : v.previous = some previous) (hmapped : v.mapped = false) :
    Rotating hashKeyId a (retire previous) (fun past' r =>
      r = .ok () → Settled v previous past') past := by
  subst hv
  cases previous with
  | none =>
    exact fun _ => ⟨(progress past).retired, (progress past).missing, rfl, fun h hold => by
      cases hold⟩
  | some old =>
    refine Prog.Meets.bind (revokeHash_rotating rfl hprevious hmapped) fun past' r hr => ?_
    cases r with
    | ok u => exact fun _ => hr (Or.inl rfl)
    | error e =>
      cases e with
      | unknown => exact fun _ => hr (Or.inr rfl)
      | _ => exact fun h => by cases h

/-- What a read of the mapping shows. -/
def ReadAs (past : List Event) : Except StoreError (Option String) → Prop
  | .ok p => progress past = ⟨some p, none, false, [], [], false⟩
  | .error _ => (progress past).mapped = false

theorem rotateMemberKey_rotating (a : String) (quotaRps : UInt32) (dailyQuota : UInt64) :
    Rotating hashKeyId a (rotateMemberKey hashKeyId a quotaRps dailyQuota)
      (ProxyMethod.Handed (.rotateMemberKey a quotaRps dailyQuota)) [] := by
  refine Prog.meets_perform_bind.2 fun _ _ => ⟨⟨fun h => (by cases h), Or.inl rfl⟩, ?_⟩
  rw [Prog.meets_bind]
  have hheld : 0 < depth (.key (memberMapKey a)) [⟨.lock (memberMapKey a), ()⟩] := by
    simp [depth]
  have hread : Rotating hashKeyId a (memberKeyHash a) (fun past' r =>
      depth (.key (memberMapKey a)) past' = 1 ∧ ReadAs past' r)
      [⟨.lock (memberMapKey a), ()⟩] := by
    refine Prog.meets_perform_bind.2 fun answer _ =>
      ⟨⟨fun h => (by cases h), rfl, hheld, rfl⟩, ?_⟩
    cases answer with
    | error e => exact ⟨by simp [depth], rfl⟩
    | ok p => exact ⟨by simp [depth], rfl⟩
  have hunlock : ∀ {past' : List Event} {r : Except StoreError String}, (∀ id, r ≠ .ok id) →
      Rotating hashKeyId a (do unlock (memberMapKey a); return r)
        (ProxyMethod.Handed (.rotateMemberKey a quotaRps dailyQuota)) past' := by
    intro past' r hr
    refine Prog.meets_perform_bind.2 fun _ _ => ⟨⟨fun _ => rfl, trivial⟩, ?_⟩
    cases r with
    | ok id => exact absurd rfl (hr id)
    | error e => exact trivial
  refine Prog.Meets.bind hread fun past₁ answer h₁ => ?_
  obtain ⟨hdepth₁, hview₁⟩ := h₁
  cases answer with
  | error e => exact hunlock fun id h => by cases h
  | ok p =>
    refine Prog.Meets.bind (createKey_rotating _ _ _ hview₁ rfl rfl rfl) fun past₂ created h₂ => ?_
    obtain ⟨hdepth₂, hcreated⟩ := h₂
    cases created with
    | error e => exact hunlock fun id h => by cases h
    | ok id =>
      obtain ⟨u, rfl, hview₂⟩ := hcreated
      have hretire : Rotating hashKeyId a (retire p) (fun past' r =>
          (r = .ok () → Settled _ p past') ∧ ∀ n, depth n past' = depth n past₂) past₂ :=
        ((retire_rotating hview₂ rfl rfl).and (retire_balanced p past₂)).mono_guar
          fun _ _ _ h => h.1
      refine Prog.Meets.bind hretire fun past₃ retired h₃ => ?_
      obtain ⟨hsettled, hdepth₃⟩ := h₃
      cases retired with
      | error e => exact hunlock fun id h => by cases h
      | ok _ =>
        obtain ⟨gone, missing, hview₃, hgone⟩ := hsettled rfl
        refine Prog.meets_perform_bind.2 fun w _ => ⟨⟨fun h => ?_, rfl, ?_⟩, ?_⟩
        · simp [hview₃] at h
        · refine ⟨?_, by rw [hview₃], by rw [hview₃]; rfl, p, by rw [hview₃], fun old hold => ?_⟩
          · rw [hdepth₃, hdepth₂, hdepth₁]
            exact Nat.one_pos
          · rw [hview₃]
            exact hgone old hold
        · cases w with
          | error e => exact hunlock fun id h => by cases h
          | ok _ =>
            refine Prog.meets_perform_bind.2 fun _ _ => ⟨⟨fun _ => rfl, trivial⟩, ?_⟩
            refine ⟨rfl, u, rfl, ?_⟩
            simp only [progress, Progress.next, hview₃]

theorem createKey_rows (label : String) (quotaRps : UInt32) (dailyQuota : UInt64) :
    (createKey hashKeyId label quotaRps dailyQuota).Meets AnyEvent
      (ProxyMethod.RowDuty hashKeyId (.createKey label quotaRps dailyQuota))
      (fun _ _ => True) [] := by
  refine Prog.meets_perform_bind.2 fun u _ => ⟨rfl, ?_⟩
  refine Prog.meets_perform_bind.2 fun now _ => ⟨trivial, ?_⟩
  refine Prog.meets_perform_bind.2 fun w _ => ⟨Or.inl ⟨rfl, rfl, rfl⟩, ?_⟩
  cases w <;> trivial

/-- A revocation only ever revokes. -/
theorem revokeHash_rows {m : ProxyMethod} (hm : ∀ a quotaRps dailyQuota,
    m ≠ .rotateMemberKey a quotaRps dailyQuota) (h : String) (past : List Event) :
    (revokeHash h).Meets AnyEvent (m.RowDuty hashKeyId) (fun _ _ => True) past := by
  have hquiet : ∀ {past : List Event} {e : Event}, (match e.1 with
      | .newUuid => (progress past).uuid = none
      | .put ⟨.record h, r⟩ => Mints hashKeyId past h r ∨ (r : KeyRecord).revoked = true
      | .put ⟨.quota _ _, _⟩ | .putSynced ⟨.bal _, _⟩ => True
      | .put _ | .putSynced _ | .writeBatch _ => False
      | _ => True) → m.RowDuty hashKeyId past e := by
    intro past e h
    cases m with
    | rotateMemberKey a quotaRps dailyQuota => exact absurd rfl (hm a quotaRps dailyQuota)
    | _ => exact h
  refine Prog.meets_perform_bind.2 fun found _ => ⟨hquiet trivial, ?_⟩
  match found with
  | .error e => trivial
  | .ok (some r) =>
    exact Prog.meets_perform_bind.2 fun w _ => ⟨hquiet (Or.inr rfl), trivial⟩
  | .ok none =>
    refine Prog.meets_perform_bind.2 fun _ _ => ⟨hquiet trivial, ?_⟩
    rw [Prog.meets_bind]
    refine Prog.meets_perform_bind.2 fun answer _ => ⟨hquiet trivial, ?_⟩
    match answer with
    | .error e => exact Prog.meets_perform_bind.2 fun _ _ => ⟨hquiet trivial, trivial⟩
    | .ok none => exact Prog.meets_perform_bind.2 fun _ _ => ⟨hquiet trivial, trivial⟩
    | .ok (some r) =>
      refine Prog.meets_perform_bind.2 fun w _ => ⟨hquiet trivial, ?_⟩
      exact Prog.meets_perform_bind.2 fun _ _ => ⟨hquiet trivial, trivial⟩

theorem tryConsume_rows (keyId : String) : (tryConsume hashKeyId keyId).Meets AnyEvent
    (ProxyMethod.RowDuty hashKeyId (.tryConsume keyId)) (fun _ _ => True) [] := by
  refine ((tryConsume_consuming keyId).mono_guar fun past e _ hduty => ?_).mono fun _ _ _ => trivial
  obtain ⟨o, a⟩ := e
  cases o with
  | put row =>
    obtain ⟨k, v⟩ := row
    cases k <;> trivial
  | newUuid | putSynced | writeBatch => exact hduty.elim
  | _ => trivial

theorem proxy_rows (m : ProxyMethod) :
    (m.prog hashKeyId).Meets AnyEvent (m.RowDuty hashKeyId) m.Handed [] := by
  cases m with
  | createKey label quotaRps dailyQuota => exact createKey_rows label quotaRps dailyQuota
  | revoke keyId => exact revokeHash_rows (fun _ _ _ h => by cases h) (hashKeyId keyId) []
  | revokeHash hash => exact revokeHash_rows (fun _ _ _ h => by cases h) hash []
  | rotateMemberKey a quotaRps dailyQuota => exact rotateMemberKey_rotating a quotaRps dailyQuota
  | setMemberPoolDaily cap => exact Prog.meets_perform.2 fun _ _ => ⟨trivial, trivial⟩
  | tryConsume keyId => exact tryConsume_rows keyId

/-- The locks of every call, and the rows it writes. -/
def rowContract (hashKeyId : String → String) : System.Contract (proxyCalls hashKeyId) where
  rely := AnyEvent
  guar := fun m past e => Guarded past e ∧ m.RowDuty hashKeyId past e
  post := fun m past r => ∃ a, r = ⟨m, a⟩ ∧ m.Handed past a
  meets := fun m => ((proxy_balanced m []).and (proxy_rows m)).bind
    fun _ a hret => ⟨a, rfl, hret.2⟩

end Promise

section Histories
variable {hashKeyId : String → String} {a : String} {past : List Event} {m : ProxyMethod}
variable {e : Event}

theorem mints_or_revokes {hash : String} {r : KeyRecord} {ans : Op.Ans (.put ⟨.record hash, r⟩)}
    (hduty : m.RowDuty hashKeyId past ⟨.put ⟨.record hash, r⟩, ans⟩) :
    Mints hashKeyId past hash r ∨ r.revoked = true := by
  cases m with
  | rotateMemberKey a quotaRps dailyQuota => exact hduty.2.imp id And.left
  | _ => exact hduty

/-- A call has minted what it records. -/
theorem uuid_of_recorded (hkept : System.Kept (m.RowDuty hashKeyId) past)
    (hrecorded : (progress past).recorded = true) : (progress past).uuid.isSome = true := by
  induction past with
  | nil => cases hrecorded
  | cons e past ih =>
    obtain ⟨hduty, hkept⟩ := hkept
    apply uuid_next
    rcases recorded_of_next hrecorded with hold | ⟨hash, r, rfl, hrevoked⟩
    · exact ih hkept hold
    · rcases mints_or_revokes hduty with ⟨_, _, hmint⟩ | h
      · cases huuid : (progress past).uuid with
        | none => simp [huuid] at hmint
        | some u => rfl
      · rw [hrevoked] at h
        cases h

theorem mapped_iff : (progress past).mapped = true ↔
    ∃ a h, (⟨.putSynced ⟨.memberMap a, h⟩, .ok ()⟩ : Event) ∈ past := by
  induction past with
  | nil => simp [progress]
  | cons e past ih =>
    constructor
    · intro hmapped
      rcases mapped_of_next hmapped with hold | ⟨a, h, rfl⟩
      · obtain ⟨a, h, hmem⟩ := ih.1 hold
        exact ⟨a, h, List.mem_cons_of_mem _ hmem⟩
      · exact ⟨a, h, List.mem_cons_self⟩
    · rintro ⟨a, h, hmem⟩
      rcases List.mem_cons.1 hmem with rfl | hmem
      · rfl
      · exact mapped_next (ih.2 ⟨a, h, hmem⟩) e

/-- What the history of a rotation shows. -/
structure Rotated (past : List Event) : Prop where
  mapped : (progress past).mapped = true → (progress past).recorded = true
  retired : ∀ h ∈ (progress past).retired, (progress past).previous = some (some h)

theorem rotated_of_kept (hkept : System.Kept (RotateDuty hashKeyId a) past) : Rotated past := by
  induction past with
  | nil => exact ⟨fun h => (by cases h), fun h hmem => (by cases hmem)⟩
  | cons e past ih =>
    obtain ⟨⟨hlast, hduty⟩, hkept⟩ := hkept
    have hold := ih hkept
    have hsame : (progress past).next e = progress past → Rotated (e :: past) := fun h => by
      constructor <;> simp only [progress, h]
      · exact hold.mapped
      · exact hold.retired
    obtain ⟨o, ans⟩ := e
    cases o with
    | get k =>
      cases k with
      | record h =>
        match ans with
        | .error e => exact hsame rfl
        | .ok (some r) => exact hsame rfl
        | .ok none => exact ⟨hold.mapped, hold.retired⟩
      | memberMap a' =>
        match ans with
        | .error e => exact hsame rfl
        | .ok p =>
          refine ⟨hold.mapped, fun h hmem => ?_⟩
          rw [hold.retired h hmem] at hduty
          cases hduty.2.2
      | _ => cases ans <;> exact hsame rfl
    | newUuid => exact ⟨hold.mapped, hold.retired⟩
    | put row =>
      obtain ⟨k, v⟩ := row
      cases k with
      | record h =>
        match ans with
        | .error e => exact hsame rfl
        | .ok () =>
          rcases hduty with hmints | ⟨hrevoked, hprevious⟩
          · constructor <;> simp only [progress, Progress.next, hmints.1]
            · exact fun _ => rfl
            · exact hold.retired
          · constructor <;> simp only [progress, Progress.next, hrevoked]
            · exact hold.mapped
            · intro h' hmem
              rcases List.mem_cons.1 hmem with rfl | hmem
              · exact hprevious
              · exact hold.retired h' hmem
      | _ => exact hduty.elim
    | putSynced row =>
      obtain ⟨k, v⟩ := row
      cases k with
      | memberMap a' =>
        match ans with
        | .error e => exact hsame rfl
        | .ok () => exact ⟨fun _ => hduty.2.recorded, hold.retired⟩
      | bal h => cases ans <;> exact hsame rfl
      | _ => exact hduty.elim
    | _ => exact hsame rfl

end Histories
end Gateway.KeyStore
