import OpenBitFun.Json
import OpenBitFun.ToolPermissions

/-!
# Permission planning

The planner that applies a resolved policy and remembered grants to the intents of a tool call
(`permission.rs`). Commands are stricter than other actions: a rule or a grant allows a command
only by its exact text, and a rule also as the rule that allows everything.

Both loops leave early at a denial. As a denial is the most restrictive effect, leaving early does
not change the result: the effect of an intent is the most restrictive of the effects of its
resources (`permissionIntentEffect_le_iff`), the plan is the most restrictive of the effects of its
intents (`restriction_le_iff`), and everything about two plans follows from these.
-/

namespace OpenBitFun

open List

namespace ToolPermissions

open PermissionEvaluator

/-- `PermissionIntent`. -/
structure PermissionIntent where
  action : String
  resources : List String
  saveResources : List String
  displayMetadata : List (String × Json.Value)

/-- `PermissionGrant`. -/
structure PermissionGrant where
  projectId : String
  action : String
  resource : String
  createdAtMs : ℤ
  deriving DecidableEq, Repr

/-- `PermissionIntentPlan`. -/
inductive PermissionIntentPlan where
  | allowed
  | denied (intent : PermissionIntent)
  | requiresApproval (intents : List PermissionIntent)

/-- How restrictive a plan is. -/
def PermissionIntentPlan.restriction : PermissionIntentPlan → PermissionEffect
  | .allowed => .allow
  | .denied _ => .deny
  | .requiresApproval _ => .ask

section Definitions

variable (toLowercase : List Char → List Char)
  (caseSensitivity : PermissionResourceCaseSensitivity)

/-- The test a rule has to pass for a command. -/
def bashRuleMatches (action resource : String) (rule : PermissionRule) : Bool :=
  wildcardMatches toLowercase action rule.action .sensitive &&
    match rule.effect with
    | .allow => rule.resource == resource || (rule.action == "*" && rule.resource == "*")
    | .ask | .deny => wildcardMatches toLowercase resource rule.resource caseSensitivity

/-- The effect the host's rules configure. -/
def configuredEffect (policy : ResolvedPermissionPolicy) (action resource : String) :
    PermissionEffect :=
  if action = "bash" then
    ((policy.rules.reverse.find?
      (bashRuleMatches toLowercase caseSensitivity action resource)).map (·.effect)).getD .ask
  else evaluateResource toLowercase ⟨caseSensitivity⟩ action resource policy.rules

/-- The configured effect combined with the restriction layers. -/
def combinedEffect (policy : ResolvedPermissionPolicy) (action resource : String) :
    PermissionEffect :=
  policy.constraintLayers.foldl
    (fun effect layer => effect.mostRestrictive
      (evaluateConstraintResource toLowercase ⟨caseSensitivity⟩ action resource layer))
    (configuredEffect toLowercase caseSensitivity policy action resource)

/-- The test a grant has to pass. -/
def grantMatches (action resource : String) (grant : PermissionGrant) : Bool :=
  if action = "bash" then grant.action == action && grant.resource == resource
  else wildcardMatches toLowercase action grant.action .sensitive &&
    wildcardMatches toLowercase resource grant.resource caseSensitivity

variable (policy : ResolvedPermissionPolicy) (grants : List PermissionGrant)

/-- The loop over the resources, from the effect of those before; it has no value when it returns
a denial. -/
def aggregateEffect (action : String) :
    (aggregate : PermissionEffect) → (resources : List String) → Option PermissionEffect
  | aggregate, [] => some aggregate
  | aggregate, resource :: resources =>
    match combinedEffect toLowercase caseSensitivity policy action resource with
    | .deny => none
    | .allow => aggregateEffect action aggregate resources
    | .ask =>
      let remembered := grants.any (grantMatches toLowercase caseSensitivity action resource)
      aggregateEffect action (if !remembered then .ask else aggregate) resources

/-- The flag of an intent that asks for an approval of its own. -/
def PermissionIntent.requiresFreshApproval (intent : PermissionIntent) : Bool :=
  ((Json.lookup "requiresFreshApproval" intent.displayMetadata).bind Json.Value.asBool).getD false

/-- `permission_intent_effect`. -/
def permissionIntentEffect (intent : PermissionIntent) : PermissionEffect :=
  match aggregateEffect toLowercase caseSensitivity policy grants intent.action .allow
    intent.resources with
  | none => .deny
  | some aggregate =>
    let effect := if intent.resources.isEmpty then .ask else aggregate
    if effect ≠ .deny && intent.requiresFreshApproval then .ask else effect

/-- The loop of `plan_permission_intents`, from the approvals collected before. -/
def planIntents : (approvals : List PermissionIntent) → (intents : List PermissionIntent) →
    PermissionIntentPlan
  | approvals, [] => if approvals.isEmpty then .allowed else .requiresApproval approvals
  | approvals, intent :: intents =>
    match permissionIntentEffect toLowercase caseSensitivity policy grants intent with
    | .allow => planIntents approvals intents
    | .ask => planIntents (approvals ++ [intent]) intents
    | .deny => .denied intent

/-- `plan_permission_intents`. -/
def planPermissionIntents (intents : List PermissionIntent) : PermissionIntentPlan :=
  planIntents toLowercase caseSensitivity policy grants [] intents

end Definitions

/-! ## The effect of one resource -/

/-- What grants do to an effect: one that covers the request answers its question. -/
def PermissionEffect.withGrants (covered : Bool) : PermissionEffect → PermissionEffect
  | .ask => if covered then .allow else .ask
  | effect => effect

namespace PermissionEffect

theorem withGrants_mono (covered : Bool) {a b : PermissionEffect} (h : a ≤ b) :
    a.withGrants covered ≤ b.withGrants covered := by
  revert h
  cases covered <;> cases a <;> cases b <;> decide

theorem withGrants_anti {covered covered' : Bool} (h : covered = true → covered' = true)
    (a : PermissionEffect) : a.withGrants covered' ≤ a.withGrants covered := by
  revert h
  cases covered <;> cases covered' <;> cases a <;> decide

theorem withGrants_eq_deny {covered : Bool} {a : PermissionEffect} :
    a.withGrants covered = .deny ↔ a = .deny := by
  cases covered <;> cases a <;> decide

theorem withGrants_eq_allow {covered : Bool} {a : PermissionEffect} :
    a.withGrants covered = .allow ↔ a = .allow ∨ a = .ask ∧ covered = true := by
  cases covered <;> cases a <;> decide

end PermissionEffect

section

variable {toLowercase : List Char → List Char}
  {caseSensitivity : PermissionResourceCaseSensitivity} {policy : ResolvedPermissionPolicy}
  {grants grants' : List PermissionGrant} {layers : List PermissionConstraintLayer}
  {action resource : String} {intent : PermissionIntent} {intents : List PermissionIntent}
  {bound : PermissionEffect}

variable (toLowercase caseSensitivity policy grants action resource) in
/-- The effect of one resource, with the grants. -/
def resourceEffect : PermissionEffect :=
  (combinedEffect toLowercase caseSensitivity policy action resource).withGrants
    (grants.any (grantMatches toLowercase caseSensitivity action resource))

theorem resourceEffect_anti (hsub : grants ⊆ grants') :
    resourceEffect toLowercase caseSensitivity policy grants' action resource ≤
      resourceEffect toLowercase caseSensitivity policy grants action resource := by
  apply PermissionEffect.withGrants_anti
  intro hany
  obtain ⟨grant, hgrant, hmatch⟩ := any_eq_true.mp hany
  exact any_eq_true.mpr ⟨grant, hsub hgrant, hmatch⟩

theorem combinedEffect_mono (hsub : policy.constraintLayers ⊆ layers) :
    combinedEffect toLowercase caseSensitivity policy action resource ≤
      combinedEffect toLowercase caseSensitivity ⟨policy.rules, layers⟩ action resource := by
  rw [combinedEffect, foldl_mostRestrictive_le_iff]
  obtain ⟨hbase, hlayers⟩ := (foldl_mostRestrictive_le_iff
    (evaluateConstraintResource toLowercase ⟨caseSensitivity⟩ action resource) layers
    (configuredEffect toLowercase caseSensitivity policy action resource) _).mp le_rfl
  exact ⟨hbase, fun layer hlayer => hlayers layer (hsub hlayer)⟩

/-! ## The effect of one intent -/

/-- The loop over the resources is a maximum: leaving it early stands for a denial. -/
theorem aggregateEffect_le_iff (aggregate : PermissionEffect) (resources : List String)
    (haggregate : aggregate ≠ .deny) :
    (aggregateEffect toLowercase caseSensitivity policy grants action aggregate
        resources).getD .deny ≤ bound ↔
      aggregate ≤ bound ∧ ∀ resource ∈ resources,
        resourceEffect toLowercase caseSensitivity policy grants action resource ≤ bound := by
  induction resources generalizing aggregate with
  | nil => exact (and_iff_left fun r hr => absurd hr not_mem_nil).symm
  | cons resource resources ih =>
    rw [aggregateEffect, forall_mem_cons, resourceEffect]
    split
    · rename_i hcombined
      rw [hcombined]
      refine ⟨fun h => ?_, fun h => h.2.1⟩
      obtain rfl := PermissionEffect.deny_le_iff.mp h
      exact ⟨PermissionEffect.le_deny _, PermissionEffect.le_deny _,
        fun r _ => PermissionEffect.le_deny _⟩
    · rename_i hcombined
      rw [hcombined, ih aggregate haggregate]
      exact and_congr_right fun _ => (and_iff_right (PermissionEffect.allow_le _)).symm
    · rename_i hcombined
      rw [hcombined]
      cases hany : grants.any (grantMatches toLowercase caseSensitivity action resource) with
      | true =>
        refine (ih aggregate haggregate).trans ?_
        exact and_congr_right fun _ => (and_iff_right (PermissionEffect.allow_le _)).symm
      | false =>
        refine (ih .ask (by decide)).trans ?_
        refine ⟨fun h => ⟨?_, h⟩, fun h => h.2⟩
        exact (PermissionEffect.le_ask_iff.mpr haggregate).trans h.1

/-- An approval of its own makes an effect a question, unless it is a denial. -/
theorem freshEffect_le_iff (effect : PermissionEffect) (fresh : Bool) :
    (if effect ≠ .deny && fresh then .ask else effect) ≤ bound ↔
      effect ≤ bound ∧ (fresh = true → .ask ≤ bound) := by
  cases effect <;> cases fresh <;> cases bound <;> decide

/-- An intent asks at least where it names no resource or wants an approval of its own. -/
theorem permissionIntentEffect_le_iff :
    permissionIntentEffect toLowercase caseSensitivity policy grants intent ≤ bound ↔
      (∀ resource ∈ intent.resources,
        resourceEffect toLowercase caseSensitivity policy grants intent.action resource ≤ bound) ∧
      (intent.resources = [] ∨ intent.requiresFreshApproval = true → .ask ≤ bound) := by
  obtain ⟨action, resources, saveResources, displayMetadata⟩ := intent
  rw [permissionIntentEffect]
  generalize PermissionIntent.requiresFreshApproval _ = fresh
  cases resources with
  | nil =>
    refine (freshEffect_le_iff .ask fresh).trans ⟨fun h => ?_, fun h => ?_⟩
    · exact ⟨fun r hr => absurd hr not_mem_nil, fun _ => h.1⟩
    · exact ⟨h.2 (.inl rfl), fun _ => h.2 (.inl rfl)⟩
  | cons resource resources =>
    have hloop : (aggregateEffect toLowercase caseSensitivity policy grants action .allow
        (resource :: resources)).getD .deny ≤ bound ↔ _ :=
      aggregateEffect_le_iff .allow (resource :: resources) (by decide)
    rw [and_iff_right (PermissionEffect.allow_le _)] at hloop
    rw [← hloop, or_iff_right (cons_ne_nil _ _)]
    rcases aggregateEffect toLowercase caseSensitivity policy grants action .allow
      (resource :: resources) with _ | aggregate
    · exact (and_iff_left_of_imp fun h _ => (PermissionEffect.le_deny _).trans h).symm
    · exact freshEffect_le_iff aggregate fresh

theorem permissionIntentEffect_anti (hsub : grants ⊆ grants') :
    permissionIntentEffect toLowercase caseSensitivity policy grants' intent ≤
      permissionIntentEffect toLowercase caseSensitivity policy grants intent := by
  obtain ⟨hresources, hask⟩ := permissionIntentEffect_le_iff.mp
    (le_refl (permissionIntentEffect toLowercase caseSensitivity policy grants intent))
  apply permissionIntentEffect_le_iff.mpr
  exact ⟨fun r hr => (resourceEffect_anti hsub).trans (hresources r hr), hask⟩

theorem permissionIntentEffect_mono (hsub : policy.constraintLayers ⊆ layers) :
    permissionIntentEffect toLowercase caseSensitivity policy grants intent ≤
      permissionIntentEffect toLowercase caseSensitivity ⟨policy.rules, layers⟩ grants intent := by
  obtain ⟨hresources, hask⟩ := permissionIntentEffect_le_iff.mp (le_refl
    (permissionIntentEffect toLowercase caseSensitivity ⟨policy.rules, layers⟩ grants intent))
  apply permissionIntentEffect_le_iff.mpr
  refine ⟨fun r hr => ?_, hask⟩
  exact (PermissionEffect.withGrants_mono _ (combinedEffect_mono hsub)).trans (hresources r hr)

/-- A denial is a resource's, and grants have no part in it. -/
theorem permissionIntentEffect_eq_deny :
    permissionIntentEffect toLowercase caseSensitivity policy grants intent = .deny ↔
      ∃ resource ∈ intent.resources,
        combinedEffect toLowercase caseSensitivity policy intent.action resource = .deny := by
  rw [← not_iff_not, ← ne_eq, ← PermissionEffect.le_ask_iff, permissionIntentEffect_le_iff,
    and_iff_left fun _ => le_rfl]
  push Not
  refine forall₂_congr fun r _ => ?_
  rw [PermissionEffect.le_ask_iff, resourceEffect, ne_eq, PermissionEffect.withGrants_eq_deny]

/-! ## The plan -/

/-- The loop over the intents is a maximum. -/
theorem planIntents_restriction_le_iff (approvals intents : List PermissionIntent) :
    (planIntents toLowercase caseSensitivity policy grants approvals
        intents).restriction ≤ bound ↔
      (approvals ≠ [] → .ask ≤ bound) ∧ ∀ intent ∈ intents,
        permissionIntentEffect toLowercase caseSensitivity policy grants intent ≤ bound := by
  induction intents generalizing approvals with
  | nil => cases approvals <;> simp [planIntents, PermissionIntentPlan.restriction]
  | cons intent intents ih =>
    rw [planIntents, forall_mem_cons]
    split
    · rename_i heffect
      rw [ih, heffect]
      exact and_congr_right fun _ => (and_iff_right (PermissionEffect.allow_le _)).symm
    · rename_i heffect
      have hne : approvals ++ [intent] ≠ [] := append_ne_nil_of_right_ne_nil _ nofun
      rw [ih, heffect]
      exact ⟨fun h => ⟨fun _ => h.1 hne, h.1 hne, h.2⟩, fun h => ⟨fun _ => h.2.1, h.2.2⟩⟩
    · rename_i heffect
      rw [heffect]
      refine ⟨fun h => ?_, fun h => h.2.1⟩
      obtain rfl := PermissionEffect.deny_le_iff.mp h
      exact ⟨fun _ => PermissionEffect.le_deny _, PermissionEffect.le_deny _,
        fun _ _ => PermissionEffect.le_deny _⟩

/-- **A plan is the most restrictive of the effects of its intents.** -/
theorem restriction_le_iff :
    (planPermissionIntents toLowercase caseSensitivity policy grants
        intents).restriction ≤ bound ↔
      ∀ intent ∈ intents,
        permissionIntentEffect toLowercase caseSensitivity policy grants intent ≤ bound := by
  rw [planPermissionIntents, planIntents_restriction_le_iff]
  exact and_iff_right fun h => absurd rfl h

/-- A denied plan names the first intent that is denied. -/
theorem planIntents_eq_denied {approvals : List PermissionIntent} {denied : PermissionIntent} :
    planIntents toLowercase caseSensitivity policy grants approvals intents = .denied denied ↔
      intents.find? (fun intent => permissionIntentEffect toLowercase caseSensitivity policy
        grants intent = .deny) = some denied := by
  induction intents generalizing approvals with
  | nil => cases approvals <;> simp [planIntents]
  | cons intent intents ih =>
    rw [planIntents]
    split <;> rename_i heffect <;> simp [heffect, ih]

theorem eq_allowed_iff {plan : PermissionIntentPlan} :
    plan = .allowed ↔ plan.restriction ≤ .allow := by
  cases plan <;> simp [PermissionIntentPlan.restriction, PermissionEffect.le_allow_iff]

theorem exists_denied_iff {plan : PermissionIntentPlan} :
    (∃ denied, plan = .denied denied) ↔ plan.restriction = .deny := by
  cases plan <;> simp [PermissionIntentPlan.restriction]

/-! ## What an allowed plan rests on -/

variable (toLowercase caseSensitivity policy grants) in
/-- What allows one intent. -/
structure Justified (intent : PermissionIntent) : Prop where
  /-- it names a resource -/
  nonempty : intent.resources ≠ []
  /-- it wants no approval of its own -/
  notFresh : intent.requiresFreshApproval = false
  /-- every resource is allowed, or asked about and covered by a grant -/
  covered : ∀ resource ∈ intent.resources,
    combinedEffect toLowercase caseSensitivity policy intent.action resource = .allow ∨
    combinedEffect toLowercase caseSensitivity policy intent.action resource = .ask ∧
      ∃ grant ∈ grants,
        grantMatches toLowercase caseSensitivity intent.action resource grant = true
  /-- a command is covered by its exact text, or by the rule that allows everything -/
  bash : intent.action = "bash" → ∀ resource ∈ intent.resources,
    (∃ grant ∈ grants, grant.action = "bash" ∧ grant.resource = resource) ∨
    ∃ rule ∈ policy.rules, rule.effect = .allow ∧
      wildcardMatches toLowercase "bash" rule.action .sensitive = true ∧
      (rule.resource = resource ∨ rule.action = "*" ∧ rule.resource = "*")

theorem exists_rule_of_configuredEffect_bash
    (h : configuredEffect toLowercase caseSensitivity policy "bash" resource = .allow) :
    ∃ rule ∈ policy.rules, rule.effect = .allow ∧
      wildcardMatches toLowercase "bash" rule.action .sensitive = true ∧
      (rule.resource = resource ∨ rule.action = "*" ∧ rule.resource = "*") := by
  rw [configuredEffect, if_pos rfl] at h
  rcases hfind : policy.rules.reverse.find?
    (bashRuleMatches toLowercase caseSensitivity "bash" resource) with _ | rule
  · rw [hfind] at h
    cases h
  · rw [hfind] at h
    have heffect : rule.effect = .allow := h
    have hmatch := find?_some hfind
    rw [bashRuleMatches, heffect, Bool.and_eq_true, Bool.or_eq_true, Bool.and_eq_true, beq_iff_eq,
      beq_iff_eq, beq_iff_eq] at hmatch
    exact ⟨rule, mem_reverse.mp (mem_of_find?_eq_some hfind), heffect, hmatch⟩

/-- The configured effect is at most the combined one. -/
theorem configuredEffect_le :
    configuredEffect toLowercase caseSensitivity policy action resource ≤
      combinedEffect toLowercase caseSensitivity policy action resource :=
  ((foldl_mostRestrictive_le_iff _ _ _ _).mp le_rfl).1

theorem justified_of_effect
    (h : permissionIntentEffect toLowercase caseSensitivity policy grants intent ≤ .allow) :
    Justified toLowercase caseSensitivity policy grants intent := by
  obtain ⟨hresources, hask⟩ := permissionIntentEffect_le_iff.mp h
  rw [imp_iff_not (by decide), not_or, Bool.not_eq_true] at hask
  have hcovered : ∀ resource ∈ intent.resources,
      combinedEffect toLowercase caseSensitivity policy intent.action resource = .allow ∨
      combinedEffect toLowercase caseSensitivity policy intent.action resource = .ask ∧
        ∃ grant ∈ grants,
          grantMatches toLowercase caseSensitivity intent.action resource grant = true := by
    intro r hr
    rw [← any_eq_true]
    exact PermissionEffect.withGrants_eq_allow.mp
      (PermissionEffect.le_allow_iff.mp (hresources r hr))
  refine ⟨hask.1, hask.2, hcovered, fun hbash r hr => ?_⟩
  have hr' := hcovered r hr
  rw [hbash] at hr'
  rcases hr' with hallow | ⟨-, grant, hgrant, hmatch⟩
  · right
    apply exists_rule_of_configuredEffect_bash
    rw [← PermissionEffect.le_allow_iff, ← hallow]
    exact configuredEffect_le
  · left
    rw [grantMatches, if_pos rfl, Bool.and_eq_true, beq_iff_eq, beq_iff_eq] at hmatch
    exact ⟨grant, hgrant, hmatch⟩

end

/-- **Permission planning is safe and monotone**: an allowed plan is justified intent by intent; no
grant outweighs a denied resource; more grants leave an allowed plan allowed, and a denied one as
it is; and more restriction layers never make a plan less restrictive. -/
theorem planPermissionIntents_safe_and_monotone (toLowercase : List Char → List Char)
    (caseSensitivity : PermissionResourceCaseSensitivity) (policy : ResolvedPermissionPolicy)
    (grants : List PermissionGrant) (intents : List PermissionIntent) :
    (planPermissionIntents toLowercase caseSensitivity policy grants intents = .allowed →
      ∀ intent ∈ intents, Justified toLowercase caseSensitivity policy grants intent) ∧
    (∀ intent ∈ intents, ∀ resource ∈ intent.resources,
      combinedEffect toLowercase caseSensitivity policy intent.action resource = .deny →
      ∀ grants', ∃ denied,
        planPermissionIntents toLowercase caseSensitivity policy grants' intents =
          .denied denied) ∧
    (∀ grants', grants ⊆ grants' →
      (planPermissionIntents toLowercase caseSensitivity policy grants intents = .allowed →
        planPermissionIntents toLowercase caseSensitivity policy grants' intents = .allowed) ∧
      ∀ denied,
        planPermissionIntents toLowercase caseSensitivity policy grants intents =
          .denied denied →
        planPermissionIntents toLowercase caseSensitivity policy grants' intents =
          .denied denied) ∧
    ∀ layers, policy.constraintLayers ⊆ layers →
      (planPermissionIntents toLowercase caseSensitivity policy grants intents).restriction ≤
        (planPermissionIntents toLowercase caseSensitivity ⟨policy.rules, layers⟩ grants
          intents).restriction := by
  refine ⟨fun h => ?_, fun intent hintent resource hresource hdeny grants' => ?_,
    fun grants' hsub => ⟨fun h => ?_, fun denied h => ?_⟩, fun layers hsub => ?_⟩
  · rw [eq_allowed_iff, restriction_le_iff] at h
    exact fun intent hintent => justified_of_effect (h intent hintent)
  · rw [exists_denied_iff, ← PermissionEffect.deny_le_iff]
    have hintentDeny :
        permissionIntentEffect toLowercase caseSensitivity policy grants' intent = .deny :=
      permissionIntentEffect_eq_deny.mpr ⟨resource, hresource, hdeny⟩
    rw [← hintentDeny]
    exact restriction_le_iff.mp le_rfl intent hintent
  · rw [eq_allowed_iff, restriction_le_iff] at h ⊢
    exact fun intent hintent => (permissionIntentEffect_anti hsub).trans (h intent hintent)
  · rw [planPermissionIntents, planIntents_eq_denied] at h ⊢
    rw [← h]
    congr 1
    funext intent
    simp only [permissionIntentEffect_eq_deny]
  · rw [restriction_le_iff]
    intro intent hintent
    exact (permissionIntentEffect_mono hsub).trans (restriction_le_iff.mp le_rfl intent hintent)

end ToolPermissions

end OpenBitFun
