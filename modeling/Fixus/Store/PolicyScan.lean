import Fixus.Store.TenantPolicy

/-!
# Scans of a policy stream

A policy is read by scanning its stream from the start. The scan stops when all shards are caught up, but also when the
frames end, fail or take too long; what it has seen by then is the answer.

- `FullScan`, `CutScan`: the frames that deliver a stream, and where the scan can stop;
- `latestIn_cut`: a scan ends with the newest of the records that were delivered;
- `setAll`, `SetLast`: a tenant's policies, set one after the other;
- `tenant_policy_fresh_iff`: the answer is the policy that was set last, or an error, exactly if the session is refused
  or the newest delivered record has this policy;
- `tenant_policy_stale`: a scan that breaks off.
-/

namespace Fixus

open Lib Lib.Eff BrokerStore

/-! ## Frames -/

/-- The records among frames. -/
def recordsOf (frames : List Frame) : List Record :=
  frames.filterMap fun
    | .record r => some r
    | _ => none

/-- The shards that frames report as caught up. -/
def caughtUpIn : List Frame → Finset Nat
  | [] => ∅
  | .caughtUp shard :: frames => insert shard (caughtUpIn frames)
  | _ :: frames => caughtUpIn frames

@[simp] theorem recordsOf_append (fs fs' : List Frame) : recordsOf (fs ++ fs') = recordsOf fs ++ recordsOf fs' :=
  List.filterMap_append

@[simp] theorem caughtUpIn_append (fs fs' : List Frame) : caughtUpIn (fs ++ fs') = caughtUpIn fs ∪ caughtUpIn fs' := by
  induction fs with
  | nil => simp [caughtUpIn]
  | cons f fs ih => cases f <;> simp [caughtUpIn, ih]

/-- The frames of a scan that is not cut: the records of all shards in some order, and reports of the shards that are
caught up; the last frame is the one with the last of them. -/
structure FullScan (shards : Finset Nat) (log : List Record) (body : List Frame) (last : Nat) : Prop where
  noErr : ∀ f ∈ body, ∀ msg, f ≠ .err msg
  records : (recordsOf body).Perm log
  behind : caughtUpIn body ≠ shards
  complete : insert last (caughtUpIn body) = shards

/-- How a session on a stream can go: it is refused; an empty stream has no shards; or so many frames of a full scan
come in, and then the scan ends, takes too long, or fails. -/
inductive CutScan (log : List Record) : Session → Prop
  | refused (msg : String) : CutScan log (.refused msg)
  | idle {frames : List Frame} (hlog : log = []) (hnone : recordsOf frames = []) (leaveErr : Option String) :
    CutScan log (.open_ ∅ frames leaveErr)
  | cut {shards : Finset Nat} {body : List Frame} {last : Nat} (h : FullScan shards log body last) (n : Nat)
    {fault : List Frame} (hfault : fault = [] ∨ ∃ msg, fault = [.err msg]) (leaveErr : Option String) :
    CutScan log (.open_ shards ((body ++ [Frame.caughtUp last]).take n ++ fault) leaveErr)

/-! ## What a scan sees -/

/-- As long as not all shards are caught up the loop goes on. -/
theorem latestIn_append {shards caughtUp : Finset Nat} {fs : List Frame} (rest : List Frame)
    (latest : Option (Nat × Json)) (hshards : shards ≠ ∅) (hnoErr : ∀ f ∈ fs, ∀ msg, f ≠ .err msg)
    (hsub : caughtUp ∪ caughtUpIn fs ⊆ shards) (hne : caughtUp ∪ caughtUpIn fs ≠ shards) :
    latestIn shards (fs ++ rest) latest caughtUp =
      latestIn shards rest ((recordsOf fs).foldl newer latest) (caughtUp ∪ caughtUpIn fs) := by
  induction fs generalizing latest caughtUp with
  | nil => simp [recordsOf, caughtUpIn]
  | cons f fs ih =>
    obtain ⟨hf, hfs⟩ := List.forall_mem_cons.mp hnoErr
    -- with all shards caught up by now, they would be at the end
    have hbehind : ∀ c : Finset Nat, c ⊆ caughtUp ∪ caughtUpIn (f :: fs) → ¬ (c = shards ∨ shards = ∅) := by
      rintro c hc (rfl | h)
      · exact hne (Finset.Subset.antisymm hsub hc)
      · exact hshards h
    cases f with
    | err msg => exact absurd rfl (hf msg)
    | record r =>
      have hgo := hbehind caughtUp Finset.subset_union_left
      rw [List.cons_append, latestIn, if_neg hgo]
      exact ih (newer latest r) hfs hsub hne
    | notice =>
      have hgo := hbehind caughtUp Finset.subset_union_left
      rw [List.cons_append, latestIn, if_neg hgo]
      exact ih latest hfs hsub hne
    | caughtUp shard =>
      have heq : insert shard caughtUp ∪ caughtUpIn fs = caughtUp ∪ caughtUpIn (.caughtUp shard :: fs) := by
        simp [caughtUpIn, Finset.insert_union, Finset.union_insert]
      have hgo := hbehind (insert shard caughtUp) (heq ▸ Finset.subset_union_left)
      rw [List.cons_append, latestIn, if_neg hgo, ← heq]
      exact ih latest hfs (heq ▸ hsub) (heq ▸ hne)

/-- **A scan that is cut ends with the newest of the records that were delivered.** -/
theorem latestIn_cut {shards : Finset Nat} {log : List Record} {body : List Frame} {last : Nat}
    (h : FullScan shards log body last) (n : Nat) {fault : List Frame}
    (hfault : fault = [] ∨ ∃ msg, fault = [.err msg]) :
    latestIn shards ((body ++ [Frame.caughtUp last]).take n ++ fault) none ∅ =
      (recordsOf ((body ++ [Frame.caughtUp last]).take n ++ fault)).foldl newer none := by
  have hshards : shards ≠ ∅ := by
    rw [← h.complete]
    exact Finset.insert_ne_empty _ _
  have hbody : caughtUpIn body ⊆ shards := by
    rw [← h.complete]
    exact Finset.subset_insert _ _
  have hnone : recordsOf fault = [] := by
    rcases hfault with rfl | ⟨msg, rfl⟩ <;> rfl
  have hstop : ∀ latest caughtUp, latestIn shards fault latest caughtUp = latest := by
    intro latest caughtUp
    rcases hfault with rfl | ⟨msg, rfl⟩ <;> rfl
  by_cases hn : n ≤ body.length
  · -- the scan is cut while a shard is behind
    have htake : (body ++ [Frame.caughtUp last]).take n = body.take n := List.take_append_of_le_length hn
    have hsub : caughtUpIn (body.take n) ⊆ caughtUpIn body := by
      conv_rhs => rw [← List.take_append_drop n body, caughtUpIn_append]
      exact Finset.subset_union_left
    have hne : caughtUpIn (body.take n) ≠ shards := fun heq => h.behind (Finset.Subset.antisymm hbody (heq ▸ hsub))
    rw [htake, latestIn_append fault none hshards (fun f hf => h.noErr f (List.mem_of_mem_take hf))
      (by simpa using hsub.trans hbody) (by simpa using hne), hstop, recordsOf_append, hnone, List.append_nil]
  · have htake : (body ++ [Frame.caughtUp last]).take n = body ++ [Frame.caughtUp last] :=
      List.take_of_length_le (by rw [List.length_append, List.length_singleton]; omega)
    have hend : ∀ latest, latestIn shards ([Frame.caughtUp last] ++ fault) latest (∅ ∪ caughtUpIn body) = latest := by
      intro latest
      have hcomplete : insert last (∅ ∪ caughtUpIn body) = shards := by rw [Finset.empty_union, h.complete]
      rw [List.singleton_append, latestIn, if_pos (Or.inl hcomplete)]
    have hlast : recordsOf [Frame.caughtUp last] = [] := rfl
    rw [htake, List.append_assoc, latestIn_append _ none hshards h.noErr (by simpa using hbody)
      (by simpa using h.behind), hend, recordsOf_append, recordsOf_append, hnone, hlast, List.append_nil,
      List.append_nil]

/-- The newest of some records. -/
theorem foldl_newer (rs : List Record) : (rs = [] ∧ rs.foldl newer none = none) ∨
    ∃ r ∈ rs, (∀ r' ∈ rs, r'.seq ≤ r.seq) ∧ rs.foldl newer none = some (r.seq, r.content) := by
  induction rs using List.reverseRecOn with
  | nil => exact Or.inl ⟨rfl, rfl⟩
  | append_singleton rs r ih =>
    right
    rw [List.foldl_append]
    rcases ih with ⟨rfl, -⟩ | ⟨r₀, hmem, hmax, hfold⟩
    · exact ⟨r, by simp, by simp, rfl⟩
    · rw [hfold]
      by_cases hlt : r₀.seq < r.seq
      · refine ⟨r, by simp, fun r' hr' => ?_, by simp [newer, hlt]⟩
        rcases List.mem_append.mp hr' with hr' | hr'
        · have hle := hmax r' hr'
          omega
        · rw [List.mem_singleton.mp hr']
      · refine ⟨r₀, List.mem_append_left _ hmem, fun r' hr' => ?_, by simp [newer, hlt]⟩
        rcases List.mem_append.mp hr' with hr' | hr'
        · exact hmax r' hr'
        · rw [List.mem_singleton.mp hr']
          omega

/-! ## Policies set one after the other -/

section Sets

variable (isAlphanumeric : Char → Bool) (tenantId : String)

/-- Set policies of a tenant; with the state comes the policy that was set last, if a call has succeeded. -/
def setAll : List CapabilityPolicy → BrokerStore × Option CapabilityPolicy → BrokerStore × Option CapabilityPolicy
  | [], at_ => at_
  | policy :: policies, (s, last) =>
    match setTenantPolicy isAlphanumeric tenantId policy s with
    | (.ok (), s') => setAll policies (s', some policy)
    | (.error _, s') => setAll policies (s', last)

/-- The stream has policies only, and the last one is the one that was set last. -/
structure SetLast (stream : String) (s : BrokerStore) (last : Option CapabilityPolicy) : Prop where
  decodes : ∀ r ∈ s.streams stream, ∃ policy, CapabilityPolicy.ofJson r.content = some policy
  last : (s.streams stream).getLast?.bind (fun r => CapabilityPolicy.ofJson r.content) = last

variable {isAlphanumeric tenantId}

/-- Setting a policy. -/
theorem SetLast.set {s : BrokerStore} {last : Option CapabilityPolicy}
    (h : SetLast (tenantPolicyStream isAlphanumeric tenantId) s last) (policy : CapabilityPolicy) :
    wp (setTenantPolicy isAlphanumeric tenantId policy)
      (fun _ s' => SetLast (tenantPolicyStream isAlphanumeric tenantId) s' (some policy))
      (fun _ s' => SetLast (tenantPolicyStream isAlphanumeric tenantId) s' last) s := by
  unfold setTenantPolicy
  rw [wp_bind, wp_mapErr]
  refine wp_produce (fun seq s' _ hs _ _ _ => ?_) fun msg s' _ hs _ _ => ?_
  · have hstream := congrFun hs (tenantPolicyStream isAlphanumeric tenantId)
    rw [Function.update_self] at hstream
    refine ⟨fun r hr => ?_, ?_⟩
    · rw [hstream] at hr
      rcases List.mem_append.mp hr with hr | hr
      · exact h.decodes r hr
      · rw [List.mem_singleton.mp hr]
        exact ⟨policy, CapabilityPolicy.ofJson_toJson policy⟩
    · rw [hstream, List.getLast?_concat]
      exact CapabilityPolicy.ofJson_toJson policy
  · exact ⟨by rw [hs]; exact h.decodes, by rw [hs]; exact h.last⟩

/-- **Any number of calls.** -/
theorem SetLast.setAll {policies : List CapabilityPolicy} {s s' : BrokerStore} {last last' : Option CapabilityPolicy}
    (h : SetLast (tenantPolicyStream isAlphanumeric tenantId) s last)
    (hset : Fixus.setAll isAlphanumeric tenantId policies (s, last) = (s', last')) :
    SetLast (tenantPolicyStream isAlphanumeric tenantId) s' last' := by
  induction policies generalizing s last with
  | nil =>
    obtain ⟨rfl, rfl⟩ := Prod.mk.inj hset
    exact h
  | cons policy policies ih =>
    unfold Fixus.setAll at hset
    have hone := h.set policy
    unfold wp at hone
    cases hrun : setTenantPolicy isAlphanumeric tenantId policy s with
    | mk answer s₁ =>
      rw [hrun] at hset hone
      cases answer with
      | ok u => exact ih hone hset
      | error err => exact ih hone hset

end Sets

/-! ## The answer -/

/-- What a session delivers is on the stream. -/
theorem CutScan.delivered {log : List Record} {shards : Finset Nat} {frames : List Frame} {leaveErr : Option String}
    (h : CutScan log (.open_ shards frames leaveErr)) :
    (∀ r ∈ recordsOf frames, r ∈ log) ∧ latestIn shards frames none ∅ = (recordsOf frames).foldl newer none := by
  cases h with
  | idle hlog hnone =>
    rw [hnone]
    refine ⟨nofun, ?_⟩
    -- without shards the first frame ends the loop
    cases frames with
    | nil => rfl
    | cons f frames =>
      cases f with
      | record r => cases hnone
      | err msg => rfl
      | caughtUp shard => exact if_pos (Or.inr rfl)
      | notice => exact if_pos (Or.inr rfl)
  | @cut _ body last h n fault hfault _ =>
    refine ⟨fun r hr => h.records.mem_iff.mp ?_, latestIn_cut h n hfault⟩
    have hnone : recordsOf fault = [] := by rcases hfault with rfl | ⟨msg, rfl⟩ <;> rfl
    have hall : recordsOf (body ++ [Frame.caughtUp last]) = recordsOf body := by
      rw [recordsOf_append]
      exact List.append_nil _
    rw [recordsOf_append, hnone, List.append_nil] at hr
    rw [← hall]
    obtain ⟨f, hf, heq⟩ := List.mem_filterMap.mp hr
    exact List.mem_filterMap.mpr ⟨f, List.mem_of_mem_take hf, heq⟩

/-- The answer is the policy, or an error. -/
def Fresh (last : Option CapabilityPolicy) (answer : Except AppError (Option CapabilityPolicy)) : Prop :=
  answer = .ok last ∨ ∃ err, answer = .error err

/-- The session is refused, no policy was set, or the newest of the delivered records has the policy. -/
def Reaches (last : Option CapabilityPolicy) : Session → Prop
  | .refused _ => True
  | .open_ _ frames _ => last = none ∨ ∃ r ∈ recordsOf frames, (∀ r' ∈ recordsOf frames, r'.seq ≤ r.seq) ∧
      CapabilityPolicy.ofJson r.content = last

/-- The answer comes from the next session. -/
theorem getTenantPolicy_eq (isAlphanumeric : Char → Bool) (tenantId : String) {s : BrokerStore} {session : Session}
    {rest : List Session} (hnext : s.sessions = session :: rest) :
    ∃ s', getTenantPolicy isAlphanumeric tenantId s = match sessionContent (.ok session) with
      | .ok content => decodeTenantPolicy content s'
      | .error err => (.error err, s') := by
  obtain ⟨s', hread⟩ := readLatestStreamContent_eq (tenantPolicyStream isAlphanumeric tenantId) s
  have hsession : (nextSession (tenantPolicyStream isAlphanumeric tenantId) s).1 = .ok session := by
    unfold nextSession
    rw [hnext]
  rw [hsession] at hread
  refine ⟨s', ?_⟩
  show Eff.bind _ decodeTenantPolicy s = _
  unfold Eff.bind
  rw [hread]
  cases sessionContent (.ok session) <;> rfl

/-- **A policy is not stale exactly if the session is refused or the scan gets as far as the policy**: after any calls
of a tenant, whose records the broker numbers in ascending order, and for every session that delivers a part of the
stream. -/
theorem tenant_policy_fresh_iff {isAlphanumeric : Char → Bool} {tenantId : String} {policies : List CapabilityPolicy}
    {s₀ s : BrokerStore} {last : Option CapabilityPolicy} {session : Session} {rest : List Session}
    (h₀ : s₀.streams (tenantPolicyStream isAlphanumeric tenantId) = [])
    (hset : setAll isAlphanumeric tenantId policies (s₀, none) = (s, last))
    (ha : Ascending (s.streams (tenantPolicyStream isAlphanumeric tenantId)))
    (hscan : CutScan (s.streams (tenantPolicyStream isAlphanumeric tenantId)) session)
    (hnext : s.sessions = session :: rest) :
    Fresh last (getTenantPolicy isAlphanumeric tenantId s).1 ↔ Reaches last session := by
  have hstart : SetLast (tenantPolicyStream isAlphanumeric tenantId) s₀ none := by
    constructor
    · rw [h₀]
      exact nofun
    · rw [h₀]
      rfl
  have hlast := hstart.setAll hset
  obtain ⟨s', hanswer⟩ := getTenantPolicy_eq isAlphanumeric tenantId hnext
  rw [hanswer]
  cases session with
  | refused msg => exact iff_of_true (Or.inr ⟨_, rfl⟩) trivial
  | open_ shards frames leaveErr =>
    obtain ⟨hsub, hlatest⟩ := hscan.delivered
    have hcontent : sessionContent (.ok (.open_ shards frames leaveErr)) =
        .ok (((recordsOf frames).foldl newer none).map Prod.snd) :=
      congrArg (fun latest : Option (Nat × Json) => Except.ok (latest.map Prod.snd)) hlatest
    rw [hcontent]
    rcases foldl_newer (recordsOf frames) with ⟨hnone, hfold⟩ | ⟨r, hr, hmax, hfold⟩
    · -- nothing was delivered
      rw [hfold]
      show Fresh last (.ok none) ↔ _
      constructor
      · rintro (heq | ⟨err, herr⟩)
        · exact Or.inl (Except.ok.inj heq).symm
        · cases herr
      · rintro (rfl | ⟨r, hr, -⟩)
        · exact Or.inl rfl
        · rw [hnone] at hr
          cases hr
    · obtain ⟨policy, hpolicy⟩ := hlast.decodes r (hsub r hr)
      rw [hfold]
      have hdecode : (decodeTenantPolicy (some r.content) s').1 = .ok (some policy) := by
        simp only [decodeTenantPolicy, hpolicy]
        rfl
      show Fresh last (decodeTenantPolicy (some r.content) s').1 ↔ _
      rw [hdecode]
      constructor
      · rintro (heq | ⟨err, herr⟩)
        · exact Or.inr ⟨r, hr, hmax, hpolicy.trans (Except.ok.inj heq)⟩
        · cases herr
      · rintro (rfl | ⟨r', hr', hmax', hpolicy'⟩)
        · -- a stream without a last policy is empty
          exfalso
          obtain ⟨r', hlog⟩ : ∃ r', (s.streams (tenantPolicyStream isAlphanumeric tenantId)).getLast? = some r' :=
            ⟨_, List.getLast?_eq_some_getLast (List.ne_nil_of_mem (hsub r hr))⟩
          obtain ⟨policy', hpolicy'⟩ := hlast.decodes r' (List.mem_of_getLast? hlog)
          have hnone := hlast.last
          rw [hlog, Option.bind_some, hpolicy'] at hnone
          cases hnone
        · -- two newest records are the same
          have hseq : r'.seq = r.seq := Nat.le_antisymm (hmax r' hr') (hmax' r hr)
          have hnodup : ((s.streams (tenantPolicyStream isAlphanumeric tenantId)).map Record.seq).Nodup :=
            List.pairwise_map.mpr (ha.imp Nat.ne_of_lt)
          obtain rfl := List.inj_on_of_nodup_map hnodup (hsub r' hr') (hsub r hr) hseq
          rw [hpolicy] at hpolicy'
          exact Or.inl (congrArg Except.ok hpolicy')

/-! ## A policy that is taken back -/

/-- A policy with one destination. -/
def openPolicy : CapabilityPolicy := { net := { egress := [{ host := "10.0.0.1" }] } }

/-- The records of the policy and of the empty one after it. -/
def openRecord : Record := ⟨1, "tenant_policy", openPolicy.toJson, (∅ : Metadata).insert "tenant_id" "t"⟩
def closedRecord : Record := ⟨2, "tenant_policy", CapabilityPolicy.toJson {}, (∅ : Metadata).insert "tenant_id" "t"⟩

/-- A scan of the two records that ends after `n` frames. -/
def scanAfter (n : Nat) : Session :=
  .open_ {0} (([Frame.record openRecord, Frame.record closedRecord] ++ [Frame.caughtUp 0]).take n ++ []) none

/-- The tenant opens its policy and closes it again; `session` is what the next reader gets. -/
def afterClosing (session : Session) : BrokerStore × Option CapabilityPolicy :=
  setAll Char.isAlphanum "t" [openPolicy, {}] ({ streams := fun _ => [], sessions := [session] }, none)

theorem scanAfter_cut (n : Nat) : CutScan [openRecord, closedRecord] (scanAfter n) := by
  have hfull : FullScan {0} [openRecord, closedRecord] [.record openRecord, .record closedRecord] 0 := by
    refine ⟨?_, .refl _, by decide, by decide⟩
    intro f hf msg
    rcases List.mem_pair.mp hf with rfl | rfl <;> exact Frame.noConfusion
  exact .cut hfull n (Or.inl rfl) none

/-- The reader with all frames gets the empty policy. -/
theorem tenant_policy_fresh_closed :
    Fresh (some {}) (getTenantPolicy Char.isAlphanum "t" (afterClosing (scanAfter 3)).1).1 := by
  have h₀ : ({ streams := fun _ => [], sessions := [scanAfter 3] } : BrokerStore).streams
      (tenantPolicyStream Char.isAlphanum "t") = [] := rfl
  have hset : afterClosing (scanAfter 3) = ((afterClosing (scanAfter 3)).1, some {}) := rfl
  have hlog : (afterClosing (scanAfter 3)).1.streams (tenantPolicyStream Char.isAlphanum "t") =
      [openRecord, closedRecord] := rfl
  have ha : Ascending [openRecord, closedRecord] := by decide
  refine (tenant_policy_fresh_iff h₀ hset (hlog ▸ ha) (hlog ▸ scanAfter_cut 3) rfl).mpr ?_
  exact Or.inr ⟨closedRecord, by simp [recordsOf], by simp [recordsOf, openRecord, closedRecord],
    CapabilityPolicy.ofJson_toJson {}⟩

/-- After the first record a reader still gets the open policy; before it, no policy. -/
theorem tenant_policy_stale :
    (∀ n, CutScan ((afterClosing (scanAfter n)).1.streams (tenantPolicyStream Char.isAlphanum "t")) (scanAfter n)) ∧
      (getTenantPolicy Char.isAlphanum "t" (afterClosing (scanAfter 1)).1).1 = .ok (some openPolicy) ∧
      (getTenantPolicy Char.isAlphanum "t" (afterClosing (scanAfter 0)).1).1 = .ok none ∧
      ¬ Fresh (some {}) (getTenantPolicy Char.isAlphanum "t" (afterClosing (scanAfter 1)).1).1 ∧
      ¬ Fresh (some {}) (getTenantPolicy Char.isAlphanum "t" (afterClosing (scanAfter 0)).1).1 := by
  have hopen : (getTenantPolicy Char.isAlphanum "t" (afterClosing (scanAfter 1)).1).1 = .ok (some openPolicy) := by
    obtain ⟨s', hanswer⟩ := getTenantPolicy_eq Char.isAlphanum "t" (rfl : (afterClosing (scanAfter 1)).1.sessions = _)
    rw [hanswer]
    show (decodeTenantPolicy (some openPolicy.toJson) s').1 = _
    simp only [decodeTenantPolicy, CapabilityPolicy.ofJson_toJson]
    rfl
  have hnone : (getTenantPolicy Char.isAlphanum "t" (afterClosing (scanAfter 0)).1).1 = .ok none := rfl
  refine ⟨scanAfter_cut, hopen, hnone, ?_, ?_⟩
  · rw [hopen]
    rintro (heq | ⟨err, herr⟩)
    · exact absurd heq (by decide)
    · cases herr
  · rw [hnone]
    rintro (heq | ⟨err, herr⟩)
    · exact absurd heq (by decide)
    · cases herr

end Fixus
