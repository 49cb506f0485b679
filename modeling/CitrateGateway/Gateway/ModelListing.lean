import CitrateGateway.Gateway.ModelRegistry

/-!
# Listed names and resolved names

A listing keeps every readable model of the registry, a lookup keeps the last hash of each name
and takes a name that spells a hash for that hash. A listed name is resolved to an active model
of that name exactly when these two choices fall on one.
-/

namespace Gateway.Models
set_option autoImplicit false
open Words Effects

section Snapshot
variable (reg : Registry)

def Registry.hashes : List H256 :=
  (reg.getAllModelHashes.bind decodeBytes32Array).toOption.getD []

/-- The name a lookup reads in an answer. -/
def readName (answer : Except GatewayError Bytes) : Option String :=
  answer.toOption.bind fun result =>
    (decodeStringAtOffsetWord result 1).filter fun name => !name.isEmpty

def Registry.nameOf (h : H256) : Option String := readName (reg.getModel h)

def Registry.infoOf (h : H256) : Option ModelInfo :=
  (reg.getModel h).toOption.bind (readModelInfo h)

def Registry.models : List ModelInfo := reg.hashes.filterMap reg.infoOf

/-- The last hash among these whose model has the name. -/
def Registry.lastAmong (hs : List H256) (name : String) : Option H256 :=
  (hs.filter fun h => reg.nameOf h = some name).getLast?

def Registry.lastOf (name : String) : Option H256 := reg.lastAmong reg.hashes name

/-- The hash belongs to an active model registered under exactly this name. -/
def Registry.ActiveModel (h : H256) (name : String) : Prop :=
  ∃ m ∈ reg.models, m.modelHash = h ∧ m.name = name ∧ m.isActive = true

instance (h : H256) (name : String) : Decidable (reg.ActiveModel h name) :=
  inferInstanceAs (Decidable (∃ m ∈ reg.models, _))

def Registry.Knows (map : NameMap) : Prop := ∀ name, (map.get name).join = reg.lastOf name

/-- Whatever the caches hold, they were filled from this registry. -/
structure Filled (c : Caches) : Prop where
  names : ∀ t map, c.names = some (t, map) → reg.Knows map
  list : ∀ t models, c.list = some (t, models) → models = reg.models

/-- An answer out of caches filled from the registry, whatever other calls did meanwhile. -/
def Served (e : Event) : Prop := ∃ c, Filled reg c ∧ e.2 = (c.answer reg e.1).1

/-- What a name is resolved to. -/
def Registry.resolved (name : String) : Option H256 := (pinnedHash name).or (reg.lastOf name)

def Registry.listing (now : UInt64) : List ModelEntry :=
  (reg.models.filter (·.isActive)).map fun m =>
    ⟨m.name, "0x" ++ hexEncode (wordBytes 20 m.owner), now⟩

end Snapshot

section Guarantees

def Op.isEnumeration : Op → Bool
  | .getAllModelHashes => true
  | _ => false

def Op.isLock : Op → Bool
  | .lockRefresh => true
  | _ => false

def Op.isRefresh : Op → Bool
  | .refreshModelCache _ => true
  | _ => false

/-- The call has asked for the hashes and has not yet put a map into the cache. -/
def Enumerating (past : List Event) : Prop :=
  past.any (·.1.isEnumeration) = true ∧ past.any (·.1.isRefresh) = false

/-- What a lookup has behind it when it enumerates: twice the cache did not have the name. -/
def missed (name : String) : List Event := [⟨.cachedModelHash name, .miss⟩]

def waited (name : String) : List Event := ⟨.lockRefresh, ()⟩ :: missed name

def rechecked (name : String) : List Event := ⟨.cachedModelHash name, .miss⟩ :: waited name

def LookupGuar (reg : Registry) (name : String) (past : List Event) (e : Event) : Prop :=
  match e.1 with
  | .cachedModelHash other => other = name ∧ (past = [] ∨ past = waited name)
  | .lockRefresh => past = missed name
  | .getAllModelHashes => past = rechecked name
  | .getModel _ => Enumerating past ∧ past.any (·.1.isLock) = true
  | .refreshModelCache map => (Enumerating past ∧ past.any (·.1.isLock) = true) ∧ reg.Knows map ∧
      (reg.lastOf name = none → map.get name = some none)
  | .cachedModelList | .refreshModelList _ => False

def ListGuar (reg : Registry) (e : Event) : Prop :=
  match e.1 with
  | .refreshModelList models => models = reg.models
  | .cachedModelHash _ | .refreshModelCache _ => False
  | _ => True

/-- The registry can be enumerated. -/
def Registry.Reachable (reg : Registry) : Prop :=
  ∃ hashes, reg.getAllModelHashes.bind decodeBytes32Array = .ok hashes

end Guarantees

section Lookups
variable {reg : Registry}

theorem filled_empty (now : Nat) : Filled reg { now := now } := by
  constructor
  · intro t map h
    cases h
  · intro t models h
    cases h

theorem served_exists (o : Op) : ∃ x, Served reg ⟨o, x⟩ :=
  ⟨(Caches.answer reg {} o).1, {}, filled_empty 0, rfl⟩

theorem fresh_some {c : Caches} {α : Type} {slot : Option (Nat × α)} {a : α}
    (h : c.fresh slot = some a) : ∃ t, slot = some (t, a) := by
  unfold Caches.fresh at h
  split at h
  · cases h
  · rename_i t b
    split at h
    · cases h
    · cases h
      exact ⟨t, rfl⟩

/-- A cached lookup that is not a miss tells what the registry holds. -/
theorem Filled.cachedModelHash {c : Caches} (h : Filled reg c) (name : String) :
    c.cachedModelHash name = .miss ∨
      (∃ x, c.cachedModelHash name = .hit x ∧ reg.lastOf name = some x) ∨
      c.cachedModelHash name = .negative ∧ reg.lastOf name = none := by
  unfold Caches.cachedModelHash
  split
  · exact .inl rfl
  · rename_i map hmap
    obtain ⟨t, ht⟩ := fresh_some hmap
    have hknows := h.names t map ht name
    split
    · rename_i x hx
      rw [hx] at hknows
      exact .inr (.inl ⟨x, rfl, hknows.symm⟩)
    · rename_i hx
      rw [hx] at hknows
      exact .inr (.inr ⟨rfl, hknows.symm⟩)
    · exact .inl rfl

theorem Served.answered {o : Op} {x : o.Ans} (h : Served reg ⟨o, x⟩) :
    ∃ c, Filled reg c ∧ (c.answer reg o).1 = x := by
  obtain ⟨c, hc, heq⟩ := h
  exact ⟨c, hc, heq.symm⟩

theorem lastAmong_cons (h : H256) (hs : List H256) (name : String) :
    reg.lastAmong (h :: hs) name =
      (reg.lastAmong hs name).or (if reg.nameOf h = some name then some h else none) := by
  unfold Registry.lastAmong
  by_cases hn : reg.nameOf h = some name
  · simp only [hn, List.filter_cons, decide_true, if_true, List.getLast?_cons]
    cases (hs.filter fun x => reg.nameOf x = some name).getLast? <;> rfl
  · simp [hn]

theorem get_insert (map : NameMap) (name other : String) (x : Option H256) :
    (map.insert name x).get other = if other = name then some x else map.get other := by
  by_cases h : other = name
  · subst h
    simp [NameMap.insert, NameMap.get]
  · rw [if_neg h]
    simp only [NameMap.insert, NameMap.get, List.lookup_cons]
    rw [beq_eq_false_iff_ne.2 h]

theorem fetchNames_cons (h : H256) (hs : List H256) (map : NameMap) :
    fetchNames (h :: hs) map = .op (E := ModelSig) (.getModel h) fun answer =>
      fetchNames hs ((readName answer).elim map fun name => map.insert name (some h)) := by
  rw [fetchNames]
  refine congrArg (Prog.op (E := ModelSig) (.getModel h)) (funext fun answer => ?_)
  cases answer with
  | error e => rfl
  | ok result =>
    simp only [Prog.bind, readName, Except.toOption, Option.bind_some]
    cases decodeStringAtOffsetWord result 1 with
    | none => rfl
    | some name =>
      by_cases hempty : name.isEmpty = true
      · simp only [Option.filter, hempty]
        rfl
      · simp only [Option.filter, hempty]
        rfl

/-- A lookup goes on from the map it has: later hashes of a name take the place of earlier ones. -/
theorem fetchNames_spec {name : String} (hs : List H256) (map : NameMap) {past : List Event}
    (hpast : Enumerating past ∧ past.any (·.1.isLock) = true) :
    (fetchNames hs map).Meets (Served reg) (LookupGuar reg name)
      (fun past out => (Enumerating past ∧ past.any (·.1.isLock) = true) ∧
        ∀ other, (out.get other).join = (reg.lastAmong hs other).or (map.get other).join) past := by
  induction hs generalizing map past with
  | nil => exact ⟨hpast, fun other => rfl⟩
  | cons h hs ih =>
    rw [fetchNames_cons]
    intro answer hanswer
    obtain ⟨c, -, rfl⟩ := hanswer.answered
    refine ⟨hpast, (ih _ ?_).mono ?_⟩
    · exact ⟨⟨by simpa using Or.inr hpast.1.1, by simpa [Op.isRefresh] using hpast.1.2⟩,
        by simpa using Or.inr hpast.2⟩
    · rintro past out ⟨henum, hout⟩
      refine ⟨henum, fun other => ?_⟩
      rw [hout other, lastAmong_cons]
      cases hname : reg.nameOf h with
      | none =>
        have hread : readName (reg.getModel h) = none := hname
        simp [Caches.answer, hread]
      | some modelName =>
        have hread : readName (reg.getModel h) = some modelName := hname
        simp only [Caches.answer, hread, Option.elim_some, get_insert]
        by_cases heq : other = modelName
        · subst heq
          simp
        · simp [heq, Ne.symm heq]

theorem hashes_of_answer {result : Bytes} (h : reg.getAllModelHashes = .ok result) :
    reg.hashes = (decodeBytes32Array result).toOption.getD [] := by
  rw [Registry.hashes, h]
  rfl

theorem lastOf_of_no_hashes (h : reg.hashes = []) (name : String) : reg.lastOf name = none := by
  rw [Registry.lastOf, h]
  rfl

theorem enumerate_spec (name : String) :
    (enumerate name).Meets (Served reg) (LookupGuar reg name)
      (fun past out => out.toOption = reg.lastOf name ∧ (reg.Reachable → ¬ Enumerating past))
      (rechecked name) := by
  intro answer hanswer
  obtain ⟨c, -, rfl⟩ := hanswer.answered
  refine ⟨rfl, ?_⟩
  simp only [Caches.answer]
  cases hall : reg.getAllModelHashes with
  | error e =>
    have hnone : reg.hashes = [] := by rw [Registry.hashes, hall]; rfl
    refine ⟨(lastOf_of_no_hashes hnone name).symm, ?_⟩
    rintro ⟨hashes, hreach⟩
    rw [hall] at hreach
    cases hreach
  | ok result =>
    have hhashes := hashes_of_answer hall
    simp only [Prog.bind]
    cases hdecode : decodeBytes32Array result with
    | error e =>
      rw [hdecode] at hhashes
      refine ⟨(lastOf_of_no_hashes hhashes name).symm, ?_⟩
      rintro ⟨hashes, hreach⟩
      rw [hall] at hreach
      exact absurd (hdecode.symm.trans hreach) (by simp)
    | ok hashes =>
      rw [hdecode] at hhashes
      refine Prog.Meets.bind (fetchNames_spec hashes [] ⟨⟨rfl, rfl⟩, rfl⟩) ?_
      rintro past map ⟨hpast, hmap⟩
      have hknows : reg.Knows map := by
        intro other
        rw [hmap other, Registry.lastOf, hhashes]
        exact Option.or_none
      have hended : ∀ m, ¬ Enumerating (⟨.refreshModelCache m, ()⟩ :: past) :=
        fun m hm => Bool.noConfusion hm.2
      cases hget : (map.get name).join with
      | some h =>
        have hsome : reg.lastOf name = some h := by rw [← hknows name, hget]
        refine fun _ _ => ⟨⟨hpast, hknows, fun hnone => ?_⟩, hsome.symm, fun _ => hended map⟩
        rw [hsome] at hnone
        cases hnone
      | none =>
        have hnone : reg.lastOf name = none := by rw [← hknows name, hget]
        refine fun _ _ => ⟨⟨hpast, fun other => ?_, fun _ => ?_⟩, hnone.symm, fun _ => hended _⟩
        · rw [get_insert]
          by_cases heq : other = name
          · subst heq
            rw [if_pos rfl, hnone]
            rfl
          · rw [if_neg heq]
            exact hknows other
        · rw [get_insert, if_pos rfl]

/-- Looking into the cache first does not change what a lookup finds. -/
theorem cached_spec {name : String} {rest : M (Except GatewayError H256)} {past : List Event}
    (hpast : past = [] ∨ past = waited name)
    (hrest : rest.Meets (Served reg) (LookupGuar reg name)
      (fun past out => out.toOption = reg.lastOf name ∧ (reg.Reachable → ¬ Enumerating past))
      (⟨.cachedModelHash name, .miss⟩ :: past)) :
    (do
      match ← perform (.cachedModelHash name) with
      | .hit h => return .ok h
      | .negative => return .error (.unknownModel name)
      | .miss => rest : M (Except GatewayError H256)).Meets (Served reg) (LookupGuar reg name)
      (fun past out => out.toOption = reg.lastOf name ∧ (reg.Reachable → ¬ Enumerating past))
      past := by
  intro x hx
  refine ⟨⟨rfl, hpast⟩, ?_⟩
  have hidle : reg.Reachable → ¬ Enumerating (⟨.cachedModelHash name, x⟩ :: past) := by
    rintro - ⟨henum, -⟩
    rcases hpast with rfl | rfl <;> cases henum
  obtain ⟨c, hc, rfl⟩ := hx.answered
  rcases hc.cachedModelHash name with hmiss | ⟨h, hhit, hlast⟩ | ⟨hneg, hlast⟩
  · simp only [Caches.answer, hmiss, Prog.bind]
    exact hrest
  · simp only [Caches.answer, hhit, Prog.bind] at hidle ⊢
    exact ⟨hlast.symm, hidle⟩
  · simp only [Caches.answer, hneg, Prog.bind] at hidle ⊢
    exact ⟨hlast.symm, hidle⟩

theorem resolveModelName_spec (name : String) :
    (resolveModelName name).Meets (Served reg) (LookupGuar reg name)
      (fun past out => out.toOption = reg.resolved name ∧ (reg.Reachable → ¬ Enumerating past))
      [] := by
  unfold resolveModelName Registry.resolved
  cases hpinned : pinnedHash name with
  | some h => exact ⟨rfl, fun _ henum => Bool.noConfusion henum.1⟩
  | none =>
    rw [Option.none_or]
    refine cached_spec (.inl rfl) ?_
    intro u _
    exact ⟨rfl, cached_spec (.inr rfl) (enumerate_spec name)⟩

theorem fetchModels_cons (h : H256) (hs : List H256) :
    fetchModels (h :: hs) = .op (E := ModelSig) (.getModel h) fun answer => do
      let rest ← fetchModels hs
      return (answer.toOption.bind (readModelInfo h)).toList ++ rest := by
  rw [fetchModels]
  refine congrArg (Prog.op (E := ModelSig) (.getModel h)) (funext fun answer => ?_)
  cases answer with
  | error e => exact (Prog.bind_ret (fetchModels hs)).symm
  | ok result => rfl

theorem fetchModels_spec (hs : List H256) (past : List Event) :
    (fetchModels hs).Meets (Served reg) (fun _ => ListGuar reg)
      (fun _ out => out = hs.filterMap reg.infoOf) past := by
  induction hs generalizing past with
  | nil => exact rfl
  | cons h hs ih =>
    rw [fetchModels_cons]
    intro answer hanswer
    obtain ⟨c, -, rfl⟩ := hanswer.answered
    refine ⟨trivial, Prog.Meets.bind (ih _) fun _ rest hrest => ?_⟩
    rw [hrest]
    change (reg.infoOf h).toList ++ hs.filterMap reg.infoOf = _
    rw [List.filterMap_cons]
    cases reg.infoOf h <;> rfl

theorem listModels_spec (past : List Event) :
    listModels.Meets (Served reg) (fun _ => ListGuar reg)
      (fun _ out => out.toOption.getD [] = reg.models) past := by
  intro x hx
  refine ⟨trivial, ?_⟩
  obtain ⟨c, hc, rfl⟩ := hx.answered
  simp only [Caches.answer]
  cases hfresh : c.fresh c.list with
  | some models =>
    obtain ⟨t, ht⟩ := fresh_some hfresh
    exact hc.list t models ht
  | none =>
    simp only [Prog.bind]
    intro u _
    refine ⟨trivial, fun x hx => ⟨trivial, ?_⟩⟩
    obtain ⟨c, hc, rfl⟩ := hx.answered
    simp only [Caches.answer]
    cases hfresh : c.fresh c.list with
    | some models =>
      obtain ⟨t, ht⟩ := fresh_some hfresh
      exact hc.list t models ht
    | none =>
      simp only [Prog.bind]
      intro answer hanswer
      obtain ⟨c, -, rfl⟩ := hanswer.answered
      refine ⟨trivial, ?_⟩
      simp only [Caches.answer]
      cases hall : reg.getAllModelHashes with
      | error e =>
        have hnone : reg.hashes = [] := by rw [Registry.hashes, hall]; rfl
        change [] = reg.models
        rw [Registry.models, hnone]
        rfl
      | ok result =>
        have hhashes := hashes_of_answer hall
        simp only [Prog.bind]
        cases hdecode : decodeBytes32Array result with
        | error e =>
          rw [hdecode] at hhashes
          change [] = reg.models
          rw [Registry.models, hhashes]
          rfl
        | ok hashes =>
          rw [hdecode] at hhashes
          refine Prog.Meets.bind (fetchModels_spec hashes _) fun _ out hout => ?_
          have hmodels : out = reg.models := by
            rw [hout, Registry.models, hhashes]
            rfl
          exact fun _ _ => ⟨hmodels, hmodels⟩

theorem modelsHandler_spec (now : UInt64) (past : List Event) :
    (modelsHandler now).Meets (Served reg) (fun _ => ListGuar reg)
      (fun _ out => out = reg.listing now) past := by
  refine Prog.Meets.bind (listModels_spec past) fun _ models hmodels => ?_
  change (List.filter _ (models.toOption.getD [])).map _ = _
  rw [hmodels]
  rfl

end Lookups

section Agreement

/-- What the listing calls active and does not spell a hash is what the last hash of its name
is, and what spells a hash is the hash of such a model. -/
def Registry.Resolvable (reg : Registry) : Prop :=
  ∀ m ∈ reg.models, m.isActive = true →
    match pinnedHash m.name with
    | some h => reg.ActiveModel h m.name
    | none => ∃ h, reg.lastOf m.name = some h ∧ reg.ActiveModel h m.name

theorem resolvable_iff {reg : Registry} : reg.Resolvable ↔
    ∀ m ∈ reg.models, m.isActive = true →
      ∃ h, reg.resolved m.name = some h ∧ reg.ActiveModel h m.name := by
  refine forall_congr' fun m => imp_congr_right fun _ => imp_congr_right fun _ => ?_
  unfold Registry.resolved
  cases pinnedHash m.name with
  | some h => simp
  | none => simp

theorem mem_listing {reg : Registry} {now : UInt64} {e : ModelEntry} (he : e ∈ reg.listing now) :
    ∃ m ∈ reg.models, m.isActive = true ∧ m.name = e.id := by
  obtain ⟨m, hm, rfl⟩ := List.mem_map.1 he
  obtain ⟨hmem, hactive⟩ := List.mem_filter.1 hm
  exact ⟨m, hmem, hactive, rfl⟩

theorem listing_of_mem {reg : Registry} (now : UInt64) {m : ModelInfo} (hm : m ∈ reg.models)
    (hactive : m.isActive = true) : ∃ e ∈ reg.listing now, e.id = m.name :=
  ⟨_, List.mem_map_of_mem (List.mem_filter.2 ⟨hm, hactive⟩), rfl⟩

/-- Every listed id is resolved to an active model of that name, whatever the caches filled from
the registry hold. -/
theorem listed_ids_resolve_iff (reg : Registry) (now : UInt64) :
    (∀ entries, (modelsHandler now).Returns (Served reg) entries → ∀ e ∈ entries,
      ∀ r, (resolveModelName e.id).Returns (Served reg) r →
        ∃ h, r = .ok h ∧ reg.ActiveModel h e.id) ↔ reg.Resolvable := by
  rw [resolvable_iff]
  constructor
  · intro hall m hm hactive
    obtain ⟨entries, hentries⟩ := Prog.exists_returns served_exists (modelsHandler now)
    obtain ⟨_, hlisted⟩ := hentries.of_meets (modelsHandler_spec now [])
    obtain ⟨e, he, hid⟩ := listing_of_mem now hm hactive
    obtain ⟨r, hr⟩ := Prog.exists_returns served_exists (resolveModelName e.id)
    obtain ⟨_, hresolved, -⟩ := hr.of_meets (resolveModelName_spec e.id)
    rw [← hlisted] at he
    obtain ⟨h, rfl, hmodel⟩ := hall entries hentries e he r hr
    rw [hid] at hresolved hmodel
    exact ⟨h, hresolved.symm, hmodel⟩
  · intro hall entries hentries e he r hr
    obtain ⟨_, hlisted⟩ := hentries.of_meets (modelsHandler_spec now [])
    obtain ⟨_, hresolved, -⟩ := hr.of_meets (resolveModelName_spec e.id)
    rw [hlisted] at he
    obtain ⟨m, hm, hactive, hid⟩ := mem_listing he
    obtain ⟨h, hsome, hmodel⟩ := hall m hm hactive
    rw [hid] at hsome hmodel
    exact ⟨h, ok_of_toOption (hresolved.trans hsome), hmodel⟩

/-- The answer of the registry for a model: eight words of head, then the name. -/
def encodeModel (name : Bytes) (active : Nat) : Bytes :=
  beBytes 32 0 ++ beBytes 32 256 ++ List.replicate 160 0 ++ beBytes 32 active ++
    beBytes 32 name.length ++ name

/-- Two models of the name `m`; the second one was deactivated. -/
def twiceNamed : Registry where
  getAllModelHashes := .ok (beBytes 32 32 ++ beBytes 32 2 ++ beBytes 32 1 ++ beBytes 32 2)
  getModel := fun h => .ok (encodeModel [109] (if h = 1 then 1 else 0))

theorem listed_id_lost : ∃ entries, (modelsHandler 0).Returns (Served twiceNamed) entries ∧
    ∃ e ∈ entries, ∃ r, (resolveModelName e.id).Returns (Served twiceNamed) r ∧
      ¬ ∃ h, r = .ok h ∧ twiceNamed.ActiveModel h e.id := by
  obtain ⟨entries, hentries⟩ := Prog.exists_returns served_exists (modelsHandler 0)
  obtain ⟨_, hlisted⟩ := hentries.of_meets (modelsHandler_spec 0 [])
  have hlisting : twiceNamed.listing 0 =
      [⟨"m", "0x0000000000000000000000000000000000000000", 0⟩] := by decide +kernel
  obtain ⟨r, hr⟩ := Prog.exists_returns (served_exists) (resolveModelName "m")
  obtain ⟨_, hresolved, -⟩ := hr.of_meets (resolveModelName_spec "m")
  refine ⟨entries, hentries, ⟨"m", "0x0000000000000000000000000000000000000000", 0⟩, ?_, r, hr, ?_⟩
  · rw [hlisted, hlisting]
    exact List.mem_singleton.2 rfl
  · rintro ⟨h, rfl, hmodel⟩
    have hlast : twiceNamed.resolved "m" = some 2 := by decide +kernel
    have hinactive : ¬ twiceNamed.ActiveModel 2 "m" := by decide +kernel
    rw [hlast] at hresolved
    cases hresolved
    exact hinactive hmodel

end Agreement
end Gateway.Models
