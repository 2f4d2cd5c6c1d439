import Fixus.Store.Broker

/-!
# Tenant policies

Each tenant's policy lives on a stream of its own, and the last record on it counts. The name of the stream is the
tenant's identifier with a dash for each character that is not safe in a name.

- `TenantPolicies`: the two operations, on the broker (`brokerTenantPolicies`) and on the log database
  (`logdbdTenantPolicies`);
- `isolated_iff`: two tenants are isolated exactly if their streams have different names.
-/

namespace Fixus

open Lib Lib.Eff

namespace CapabilityPolicy

def toJson (p : CapabilityPolicy) : Json := .obj [("fs", p.fs.toJson), ("net", p.net.toJson)]

def ofJson (v : Json) : Option CapabilityPolicy := do
  let fs ← FsPolicy.ofJson (← v.get "fs")
  let net ← NetPolicy.ofJson (← v.get "net")
  return { fs, net }

theorem ofJson_toJson (p : CapabilityPolicy) : ofJson p.toJson = some p := by
  simp [ofJson, toJson, Json.get, Json.getField, FsPolicy.ofJson_toJson, NetPolicy.ofJson_toJson]

end CapabilityPolicy

/-! ## Streams of tenants -/

section Names

variable (isAlphanumeric : Char → Bool)

/-- The identifier of a tenant with dashes for its unsafe characters. Which characters are alphanumeric is looked up in
the Unicode tables. -/
def sanitizeTenant (tenantId : String) : String :=
  String.ofList (tenantId.toList.map fun c => if isAlphanumeric c || c = '-' || c = '_' || c = '.' then c else '-')

def tenantPolicyStream (tenantId : String) : String := "tenant-policy-" ++ sanitizeTenant isAlphanumeric tenantId

/-- Identifiers with safe characters only keep their streams apart. -/
theorem tenantPolicyStream_inj {t t' : String} :
    tenantPolicyStream isAlphanumeric t = tenantPolicyStream isAlphanumeric t' ↔
      sanitizeTenant isAlphanumeric t = sanitizeTenant isAlphanumeric t' := by
  unfold tenantPolicyStream
  constructor
  · intro h
    have hl := congrArg String.toList h
    rw [String.toList_append, String.toList_append] at hl
    exact String.toList_inj.mp (List.append_cancel_left hl)
  · exact congrArg _

end Names

/-! ## The two stores -/

/-- Setting and reading the policies of tenants. -/
structure TenantPolicies (σ : Type) where
  set : (tenantId : String) → CapabilityPolicy → StoreM σ Unit
  get : (tenantId : String) → StoreM σ (Option CapabilityPolicy)

/-- The policy in the last record, if there is one. -/
def decodeTenantPolicy {σ : Type} : Option Json → StoreM σ (Option CapabilityPolicy)
  | none => pure none
  | some content =>
    match CapabilityPolicy.ofJson content with
    | some policy => pure (some policy)
    | none => fail (.internal "tenant policy decode")

namespace BrokerStore

/-- A record replaces one with a smaller number. -/
def newer (latest : Option (Nat × Json)) (r : Record) : Option (Nat × Json) :=
  match latest with
  | none => some (r.seq, r.content)
  | some (seq, content) => if seq < r.seq then some (r.seq, r.content) else some (seq, content)

/-- The loop over the frames of a session: the record with the largest number. -/
def latestIn (shards : Finset Nat) : List Frame → Option (Nat × Json) → Finset Nat → Option (Nat × Json)
  | [], latest, _ => latest
  | .err _ :: _, latest, _ => latest
  | .record r :: frames, latest, caughtUp =>
    if caughtUp = shards ∨ shards = ∅ then newer latest r else latestIn shards frames (newer latest r) caughtUp
  | .caughtUp shard :: frames, latest, caughtUp =>
    if insert shard caughtUp = shards ∨ shards = ∅ then latest
    else latestIn shards frames latest (insert shard caughtUp)
  | .notice :: frames, latest, caughtUp =>
    if caughtUp = shards ∨ shards = ∅ then latest else latestIn shards frames latest caughtUp

/-- The content of the last record of a stream; a failure to leave is ignored. -/
def readLatestStreamContent (stream : String) : StoreM BrokerStore (Option Json) := do
  match ← mapErr (fun e => .internal ("broker consumer join: " ++ e)) (nextSession stream) with
  | .refused msg => fail (.internal ("broker consumer join: " ++ msg))
  | .open_ shards frames _ => pure ((latestIn shards frames none ∅).map Prod.snd)

variable (isAlphanumeric : Char → Bool)

def setTenantPolicy (tenantId : String) (policy : CapabilityPolicy) : StoreM BrokerStore Unit := do
  let metadata : Metadata := (∅ : Metadata).insert "tenant_id" tenantId
  let _ ← mapErr (fun e => .internal ("set_tenant_policy produce: " ++ e))
    (produce (tenantPolicyStream isAlphanumeric tenantId) "tenant_policy" policy.toJson metadata)

def getTenantPolicy (tenantId : String) : StoreM BrokerStore (Option CapabilityPolicy) := do
  let latest ← readLatestStreamContent (tenantPolicyStream isAlphanumeric tenantId)
  decodeTenantPolicy latest

end BrokerStore

def brokerTenantPolicies (isAlphanumeric : Char → Bool) : TenantPolicies BrokerStore where
  set := BrokerStore.setTenantPolicy isAlphanumeric
  get := BrokerStore.getTenantPolicy isAlphanumeric

/-- The log database: its streams, and the failures of the coming appends and scans. How it answers is assumed: an
append that fails has stored nothing, a scan that succeeds returns the whole stream in order. -/
structure LogdbdStore where
  streams : String → List Record
  appends : List (Option String) := []
  scans : List (Option String) := []

namespace LogdbdStore

/-- Append a record, unless the call fails. -/
def appendFull (stream eventType : String) (content : Json) (metadata : Metadata) :
    Eff String LogdbdStore Unit := fun s =>
  let r : Record := { seq := (s.streams stream).length + 1, eventType, content, metadata }
  let appended := Function.update s.streams stream (s.streams stream ++ [r])
  match s.appends with
  | [] => (.ok (), { s with streams := appended })
  | none :: rest => (.ok (), { s with streams := appended, appends := rest })
  | some msg :: rest => (.error msg, { s with appends := rest })

/-- The records of a stream, unless the call fails. -/
def scanAll (stream : String) : Eff String LogdbdStore (List Record) := fun s =>
  match s.scans with
  | [] => (.ok (s.streams stream), s)
  | none :: rest => (.ok (s.streams stream), { s with scans := rest })
  | some msg :: rest => (.error msg, { s with scans := rest })

/-- Report an error of the database under a heading. -/
def mapErr {α : Type} (f : String → AppError) (m : Eff String LogdbdStore α) : StoreM LogdbdStore α := fun s =>
  match m s with
  | (.ok a, s') => (.ok a, s')
  | (.error msg, s') => (.error (f msg), s')

/-- `max_by_key(seq)`: the last of the records with the largest number. -/
def latest : List Record → Option Record
  | [] => none
  | r :: rest =>
    match latest rest with
    | none => some r
    | some r' => if r.seq ≤ r'.seq then some r' else some r

variable (isAlphanumeric : Char → Bool)

def setTenantPolicy (tenantId : String) (policy : CapabilityPolicy) : StoreM LogdbdStore Unit :=
  mapErr (fun e => .internal ("logdbd append: " ++ e))
    (appendFull (tenantPolicyStream isAlphanumeric tenantId) "tenant_policy" policy.toJson
      ((∅ : Metadata).insert "tenant_id" tenantId))

def getTenantPolicy (tenantId : String) : StoreM LogdbdStore (Option CapabilityPolicy) := do
  let records ← mapErr (fun e => .internal ("logdbd scan: " ++ e))
    (scanAll (tenantPolicyStream isAlphanumeric tenantId))
  decodeTenantPolicy ((latest records).map Record.content)

end LogdbdStore

def logdbdTenantPolicies (isAlphanumeric : Char → Bool) : TenantPolicies LogdbdStore where
  set := LogdbdStore.setTenantPolicy isAlphanumeric
  get := LogdbdStore.getTenantPolicy isAlphanumeric

/-! ## Isolation -/

section Isolation

variable {σ : Type} (store : TenantPolicies σ)

/-- The state after setting policies one after the other. -/
def TenantPolicies.after (sets : List (String × CapabilityPolicy)) (s : σ) : σ :=
  sets.foldl (fun s (tenant, policy) => (store.set tenant policy s).2) s

/-- After any policies have been set, setting one of the first tenant does not change what is read of the second. -/
def TenantPolicies.Isolated (a b : String) : Prop :=
  ∀ (s : σ) (sets : List (String × CapabilityPolicy)) (policy : CapabilityPolicy),
    (store.get b (store.after (sets ++ [(a, policy)]) s)).1 = (store.get b (store.after sets s)).1

theorem TenantPolicies.after_concat (sets : List (String × CapabilityPolicy)) (a : String) (policy : CapabilityPolicy)
    (s : σ) : store.after (sets ++ [(a, policy)]) s = (store.set a policy (store.after sets s)).2 := by
  simp [TenantPolicies.after]

/-- What is set is read back on some state on which nothing was there before. -/
structure TenantPolicies.ReadsBack (a b : String) : Prop where
  exists_state : ∃ s : σ, (store.get b s).1 = .ok none ∧
    ∀ policy, (store.get b (store.set a policy s).2).1 = .ok (some policy)

/-- Two tenants of whom one reads what the other set are not isolated. -/
theorem TenantPolicies.ReadsBack.not_isolated {store : TenantPolicies σ} {a b : String} (h : store.ReadsBack a b) :
    ¬ store.Isolated a b := by
  obtain ⟨s, hnone, hsome⟩ := h.exists_state
  intro hiso
  have heq := hiso s [] {}
  rw [store.after_concat] at heq
  have hcontra : (Except.ok (some {}) : Except AppError (Option CapabilityPolicy)) = .ok none :=
    (hsome {}).symm.trans (heq.trans hnone)
  cases hcontra

end Isolation

variable {isAlphanumeric : Char → Bool} {a b : String}

theorem decodeTenantPolicy_fst {σ : Type} (content : Option Json) (s s' : σ) :
    (decodeTenantPolicy content s).1 = (decodeTenantPolicy content s').1 := by
  cases content with
  | none => rfl
  | some content =>
    simp only [decodeTenantPolicy]
    cases CapabilityPolicy.ofJson content <;> rfl

/-- The content of the last record that a session delivers. -/
def BrokerStore.sessionContent : Except String Session → Except AppError (Option Json)
  | .error e => .error (.internal ("broker consumer join: " ++ e))
  | .ok (.refused msg) => .error (.internal ("broker consumer join: " ++ msg))
  | .ok (.open_ shards frames _) => .ok ((latestIn shards frames none ∅).map Prod.snd)

/-- The last record is the one that the next session delivers. -/
theorem BrokerStore.readLatestStreamContent_eq (stream : String) (s : BrokerStore) :
    ∃ s', readLatestStreamContent stream s = (sessionContent (nextSession stream s).1, s') := by
  show ∃ s', Eff.bind _ _ s = _
  unfold Eff.bind mapErr
  cases hn : nextSession stream s with
  | mk r s₁ =>
    cases r with
    | error e => exact ⟨s₁, rfl⟩
    | ok session => cases session <;> exact ⟨s₁, rfl⟩

/-- What a tenant reads depends on the sessions to come and on its stream. -/
theorem BrokerStore.getTenantPolicy_congr {s s' : BrokerStore} (hsessions : s'.sessions = s.sessions)
    (hstream : s'.streams (tenantPolicyStream isAlphanumeric b) = s.streams (tenantPolicyStream isAlphanumeric b)) :
    (getTenantPolicy isAlphanumeric b s').1 = (getTenantPolicy isAlphanumeric b s).1 := by
  obtain ⟨s₁, h₁⟩ := readLatestStreamContent_eq (tenantPolicyStream isAlphanumeric b) s
  obtain ⟨s₂, h₂⟩ := readLatestStreamContent_eq (tenantPolicyStream isAlphanumeric b) s'
  have hsession : (nextSession (tenantPolicyStream isAlphanumeric b) s').1 =
      (nextSession (tenantPolicyStream isAlphanumeric b) s).1 := by
    unfold nextSession
    rw [hsessions, hstream]
    cases s.sessions <;> rfl
  rw [hsession] at h₂
  show (Eff.bind _ decodeTenantPolicy s').1 = (Eff.bind _ decodeTenantPolicy s).1
  unfold Eff.bind
  rw [h₁, h₂]
  generalize sessionContent (nextSession (tenantPolicyStream isAlphanumeric b) s).1 = content
  cases content with
  | error err => rfl
  | ok content => exact decodeTenantPolicy_fst content _ _

/-- Setting a policy changes the tenant's stream only. -/
theorem BrokerStore.setTenantPolicy_frame (isAlphanumeric : Char → Bool) (a : String) (policy : CapabilityPolicy)
    (s : BrokerStore) :
    (setTenantPolicy isAlphanumeric a policy s).2.sessions = s.sessions ∧
      ∀ stream ≠ tenantPolicyStream isAlphanumeric a,
        (setTenantPolicy isAlphanumeric a policy s).2.streams stream = s.streams stream := by
  refine wp_state (P := fun s' : BrokerStore => s'.sessions = s.sessions ∧
    ∀ stream ≠ tenantPolicyStream isAlphanumeric a, s'.streams stream = s.streams stream) ?_
  unfold setTenantPolicy
  rw [wp_bind, wp_mapErr]
  refine wp_produce (fun seq s' _ hs _ hss _ => ?_) fun msg s' _ hs _ hss => ?_
  · exact ⟨hss, fun stream hne => by rw [hs, Function.update_of_ne hne]⟩
  · exact ⟨hss, fun stream _ => by rw [hs]⟩

theorem LogdbdStore.getTenantPolicy_congr {s s' : LogdbdStore} (hscans : s'.scans = s.scans)
    (hstream : s'.streams (tenantPolicyStream isAlphanumeric b) = s.streams (tenantPolicyStream isAlphanumeric b)) :
    (getTenantPolicy isAlphanumeric b s').1 = (getTenantPolicy isAlphanumeric b s).1 := by
  show (Eff.bind _ _ s').1 = (Eff.bind _ _ s).1
  unfold Eff.bind mapErr scanAll
  rw [hscans, hstream]
  cases s.scans with
  | nil => exact decodeTenantPolicy_fst _ _ _
  | cons fault rest =>
    cases fault with
    | none => exact decodeTenantPolicy_fst _ _ _
    | some msg => rfl

theorem LogdbdStore.setTenantPolicy_frame (isAlphanumeric : Char → Bool) (a : String) (policy : CapabilityPolicy)
    (s : LogdbdStore) :
    (setTenantPolicy isAlphanumeric a policy s).2.scans = s.scans ∧
      ∀ stream ≠ tenantPolicyStream isAlphanumeric a,
        (setTenantPolicy isAlphanumeric a policy s).2.streams stream = s.streams stream := by
  unfold setTenantPolicy mapErr appendFull
  cases s.appends with
  | nil => exact ⟨rfl, fun stream hne => Function.update_of_ne hne _ _⟩
  | cons fault rest =>
    cases fault with
    | none => exact ⟨rfl, fun stream hne => Function.update_of_ne hne _ _⟩
    | some msg => exact ⟨rfl, fun _ _ => rfl⟩

theorem brokerTenantPolicies_readsBack (h : tenantPolicyStream isAlphanumeric a = tenantPolicyStream isAlphanumeric b) :
    (brokerTenantPolicies isAlphanumeric).ReadsBack a b := by
  refine ⟨BrokerStore.empty, rfl, fun policy => ?_⟩
  let r : Record := { seq := 1, eventType := "tenant_policy", content := policy.toJson
                      metadata := (∅ : Metadata).insert "tenant_id" a }
  let s : BrokerStore := BrokerStore.empty.append (tenantPolicyStream isAlphanumeric a) r
  have hset : (BrokerStore.setTenantPolicy isAlphanumeric a policy BrokerStore.empty).2 = s := rfl
  have hsession : (BrokerStore.nextSession (tenantPolicyStream isAlphanumeric b) s).1 =
      .ok (BrokerStore.healthySession [r]) := by
    have hsessions : s.sessions = [] := rfl
    have hstream : s.streams (tenantPolicyStream isAlphanumeric b) = [r] := by
      simp only [s, BrokerStore.append, ← h, Function.update_self]
      rfl
    unfold BrokerStore.nextSession
    rw [hsessions]
    show Except.ok (BrokerStore.healthySession (s.streams _)) = _
    rw [hstream]
  obtain ⟨s₁, hread⟩ := BrokerStore.readLatestStreamContent_eq (tenantPolicyStream isAlphanumeric b) s
  rw [hsession] at hread
  have hcontent : BrokerStore.sessionContent (.ok (BrokerStore.healthySession [r])) = .ok (some policy.toJson) := by
    simp [BrokerStore.sessionContent, BrokerStore.healthySession, BrokerStore.latestIn, BrokerStore.newer, r]
  rw [hcontent] at hread
  show (Eff.bind _ decodeTenantPolicy (BrokerStore.setTenantPolicy isAlphanumeric a policy BrokerStore.empty).2).1 = _
  rw [hset]
  unfold Eff.bind
  rw [hread]
  show (decodeTenantPolicy (some policy.toJson) s₁).1 = _
  simp only [decodeTenantPolicy, CapabilityPolicy.ofJson_toJson]
  rfl

/-- Without failures the policy is that of the last record. -/
theorem LogdbdStore.getTenantPolicy_eq {s : LogdbdStore} (hscans : s.scans = []) :
    (getTenantPolicy isAlphanumeric b s).1 =
      (decodeTenantPolicy ((latest (s.streams (tenantPolicyStream isAlphanumeric b))).map Record.content) s).1 := by
  show (Eff.bind _ _ s).1 = _
  unfold Eff.bind mapErr scanAll
  rw [hscans]

theorem logdbdTenantPolicies_readsBack (h : tenantPolicyStream isAlphanumeric a = tenantPolicyStream isAlphanumeric b) :
    (logdbdTenantPolicies isAlphanumeric).ReadsBack a b := by
  refine ⟨{ streams := fun _ => [] }, rfl, fun policy => ?_⟩
  let r : Record := { seq := 1, eventType := "tenant_policy", content := policy.toJson
                      metadata := (∅ : Metadata).insert "tenant_id" a }
  let s : LogdbdStore := { streams := Function.update (fun _ => []) (tenantPolicyStream isAlphanumeric a) [r] }
  have hset : (LogdbdStore.setTenantPolicy isAlphanumeric a policy { streams := fun _ => [] }).2 = s := rfl
  have hstream : s.streams (tenantPolicyStream isAlphanumeric b) = [r] := by
    simp only [s, ← h, Function.update_self]
  show (LogdbdStore.getTenantPolicy isAlphanumeric b
    (LogdbdStore.setTenantPolicy isAlphanumeric a policy { streams := fun _ => [] }).2).1 = _
  rw [hset, LogdbdStore.getTenantPolicy_eq rfl, hstream]
  simp only [LogdbdStore.latest, Option.map_some, r, decodeTenantPolicy, CapabilityPolicy.ofJson_toJson]
  rfl

/-- **Two tenants are isolated exactly if their identifiers do not become the same name**, on both stores. -/
theorem tenants_isolated_iff (isAlphanumeric : Char → Bool) (a b : String) :
    ((brokerTenantPolicies isAlphanumeric).Isolated a b ↔
        sanitizeTenant isAlphanumeric a ≠ sanitizeTenant isAlphanumeric b) ∧
      ((logdbdTenantPolicies isAlphanumeric).Isolated a b ↔
        sanitizeTenant isAlphanumeric a ≠ sanitizeTenant isAlphanumeric b) := by
  rw [ne_eq, ← tenantPolicyStream_inj isAlphanumeric]
  refine ⟨⟨fun h heq => ?_, fun hne s sets policy => ?_⟩, ⟨fun h heq => ?_, fun hne s sets policy => ?_⟩⟩
  · exact (brokerTenantPolicies_readsBack heq).not_isolated h
  · rw [TenantPolicies.after_concat]
    obtain ⟨hsessions, hstreams⟩ := BrokerStore.setTenantPolicy_frame isAlphanumeric a policy
      ((brokerTenantPolicies isAlphanumeric).after sets s)
    exact BrokerStore.getTenantPolicy_congr hsessions (hstreams _ (Ne.symm hne))
  · exact (logdbdTenantPolicies_readsBack heq).not_isolated h
  · rw [TenantPolicies.after_concat]
    obtain ⟨hscans, hstreams⟩ := LogdbdStore.setTenantPolicy_frame isAlphanumeric a policy
      ((logdbdTenantPolicies isAlphanumeric).after sets s)
    exact LogdbdStore.getTenantPolicy_congr hscans (hstreams _ (Ne.symm hne))

/-- The tenants "a b" and "a-b" share a stream: each reads what the other sets. -/
theorem tenants_share_policy :
    "a b" ≠ "a-b" ∧ ¬ (brokerTenantPolicies Char.isAlphanum).Isolated "a b" "a-b" ∧
      ¬ (logdbdTenantPolicies Char.isAlphanum).Isolated "a b" "a-b" := by
  have hstream : tenantPolicyStream Char.isAlphanum "a b" = tenantPolicyStream Char.isAlphanum "a-b" := by decide
  exact ⟨by decide, (brokerTenantPolicies_readsBack hstream).not_isolated,
    (logdbdTenantPolicies_readsBack hstream).not_isolated⟩

end Fixus
