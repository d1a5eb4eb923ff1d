import OpenBitFun.ToolPermissions

/-!
# Delegated permissions

A delegated agent's policy is resolved from its own layers, and a ceiling of its parent's
restrictions is evaluated beside it (`tool_permissions.rs`, and `permission_policy.rs` for what a
parent passes on). At one delegation the ceiling can only take away (`NeverWidens`).

Along a chain of delegations each ceiling contains the one before it. A ceiling is one rule list
whose last match wins, so a rule that a delegation adds behind the inherited ones can turn an
inherited denial into a question, though never into a permission (`delegation_never_widens`).
-/

namespace OpenBitFun

namespace ToolPermissions

open PermissionEvaluator

/-! ## What a parent passes on -/

/-- `derive_parent_permission_runtime_ceiling`: the rules it keeps, of the parent's profile and of
the parent's definition. -/
def deriveParentRules (profileRules definitionRules : List PermissionRule) : List PermissionRule :=
  (profileRules.filter fun rule =>
    rule.effect = .deny || (rule.action = "external_directory" && rule.effect = .ask)) ++
  definitionRules.filter fun rule => rule.effect ≠ .allow

/-- `derive_parent_permission_runtime_ceiling`. The extraction keeps no rule that allows, so it
builds a ceiling and its `expect` never fails. -/
def deriveParentPermissionRuntimeCeiling (profileRules definitionRules : List PermissionRule) :
    PermissionRuntimeCeiling where
  rules := deriveParentRules profileRules definitionRules
  effect_ne_allow := by
    intro rule hrule hallow
    rcases List.mem_append.mp hrule with h | h
    · simp [hallow] at h
    · simp [hallow] at h

/-! ## One delegation -/

/-- The layers of the child as those of an agent nobody delegated to. -/
def ChildPermissionPolicyLayers.withoutCeiling (layers : ChildPermissionPolicyLayers) :
    PermissionPolicyLayers where
  productDefaults := layers.productDefaults
  global := layers.global
  mode := layers.mode
  project := layers.project
  agent := layers.childAgent
  enforced := layers.enforced

section

variable (toLowercase : List Char → List Char) (evaluator : PermissionEvaluator)
  (action resource : String)

/-- The effect for a delegated agent. -/
def childEffect (layers : ChildPermissionPolicyLayers) : PermissionEffect :=
  evaluatePolicyResource toLowercase evaluator action resource (resolveChildPermissionPolicy layers)

/-- The effect of the same layers without the ceiling. -/
def ownEffect (layers : ChildPermissionPolicyLayers) : PermissionEffect :=
  evaluatePolicyResource toLowercase evaluator action resource
    (resolvePermissionPolicy layers.withoutCeiling)

/-- The last rule of the ceiling that matches. -/
def ceilingMatch (layers : ChildPermissionPolicyLayers) : Option PermissionRule :=
  lastMatch toLowercase evaluator action resource layers.parentRuntimeCeiling.rules

/-- What a delegation may do to a policy. -/
structure NeverWidens (layers : ChildPermissionPolicyLayers) : Prop where
  /-- the effect is at least as restrictive as without the ceiling -/
  own_le : ownEffect toLowercase evaluator action resource layers ≤
    childEffect toLowercase evaluator action resource layers
  /-- and as the ceiling's last matching rule -/
  ceiling_le : ∀ rule ∈ ceilingMatch toLowercase evaluator action resource layers,
    rule.effect ≤ childEffect toLowercase evaluator action resource layers
  /-- a ceiling that does not match changes nothing -/
  unmatched : ceilingMatch toLowercase evaluator action resource layers = none →
    childEffect toLowercase evaluator action resource layers =
      ownEffect toLowercase evaluator action resource layers
  /-- the last matching enforced rule decides the host's part -/
  enforced : ∀ rule ∈ lastMatch toLowercase evaluator action resource layers.enforced,
    evaluateResource toLowercase evaluator action resource
      (resolveChildPermissionPolicy layers).rules = rule.effect
  /-- what is allowed is allowed by a rule outside the ceiling -/
  allowed : childEffect toLowercase evaluator action resource layers = .allow →
    ∃ rule ∈ (resolveChildPermissionPolicy layers).rules,
      ruleMatches toLowercase evaluator action resource rule = true ∧ rule.effect = .allow

variable {toLowercase evaluator action resource}

theorem ownEffect_eq (layers : ChildPermissionPolicyLayers) :
    ownEffect toLowercase evaluator action resource layers =
      evaluateResource toLowercase evaluator action resource
        (resolveChildPermissionPolicy layers).rules :=
  rfl

/-- The child's effect is the more restrictive of its own and the ceiling's. -/
theorem childEffect_eq (layers : ChildPermissionPolicyLayers) :
    childEffect toLowercase evaluator action resource layers =
      max (ownEffect toLowercase evaluator action resource layers)
        (((ceilingMatch toLowercase evaluator action resource layers).map (·.effect)).getD
          .allow) := by
  rw [ownEffect_eq, ← PermissionEffect.mostRestrictive_eq_max]
  rfl

theorem evaluateResource_of_enforced (layers : ChildPermissionPolicyLayers) {rule : PermissionRule}
    (h : rule ∈ lastMatch toLowercase evaluator action resource layers.enforced) :
    evaluateResource toLowercase evaluator action resource
      (resolveChildPermissionPolicy layers).rules = rule.effect := by
  have hrules : ∃ front, (resolveChildPermissionPolicy layers).rules = front ++ layers.enforced :=
    ⟨_, rfl⟩
  obtain ⟨front, hfront⟩ := hrules
  rw [evaluateResource, hfront, lastMatch_append, Option.mem_def.mp h]
  rfl

/-- A list that allows has a rule that allows. -/
theorem exists_rule_of_evaluateResource_allow {rules : List PermissionRule}
    (h : evaluateResource toLowercase evaluator action resource rules = .allow) :
    ∃ rule ∈ rules, ruleMatches toLowercase evaluator action resource rule = true ∧
      rule.effect = .allow := by
  rw [evaluateResource] at h
  rcases hmatch : lastMatch toLowercase evaluator action resource rules with _ | rule
  · rw [hmatch] at h
    cases h
  · rw [hmatch] at h
    exact ⟨rule, mem_of_lastMatch hmatch, ruleMatches_of_lastMatch hmatch, h⟩

/-- **One delegation never widens** the child's policy. -/
theorem neverWidens (layers : ChildPermissionPolicyLayers) :
    NeverWidens toLowercase evaluator action resource layers where
  own_le := by
    rw [childEffect_eq]
    exact le_max_left _ _
  ceiling_le := by
    intro rule hrule
    rw [childEffect_eq, Option.mem_def.mp hrule]
    exact le_max_right _ _
  unmatched := by
    intro hnone
    rw [childEffect_eq, hnone]
    exact max_eq_left (PermissionEffect.allow_le _)
  enforced := fun rule hrule => evaluateResource_of_enforced layers hrule
  allowed := by
    intro hallow
    apply exists_rule_of_evaluateResource_allow
    rw [← ownEffect_eq, ← PermissionEffect.le_allow_iff, ← hallow, childEffect_eq]
    exact le_max_left _ _

/-! ## Chains of delegations -/

/-- A ceiling that contains another one: it has rules in front of it and behind it. -/
def PermissionRuntimeCeiling.Extends (parent child : PermissionRuntimeCeiling) : Prop :=
  ∃ before after, child.rules = before ++ parent.rules ++ after

theorem PermissionRuntimeCeiling.Extends.trans {a b c : PermissionRuntimeCeiling}
    (hab : a.Extends b) (hbc : b.Extends c) : a.Extends c := by
  obtain ⟨before, after, hb⟩ := hab
  obtain ⟨before', after', hc⟩ := hbc
  refine ⟨before' ++ before, after ++ after', ?_⟩
  rw [hc, hb]
  simp only [List.append_assoc]

/-- One delegation of a chain: the child's ceiling contains the parent's. -/
def Delegates (parent child : ChildPermissionPolicyLayers) : Prop :=
  parent.parentRuntimeCeiling.Extends child.parentRuntimeCeiling

instance : IsTrans ChildPermissionPolicyLayers Delegates :=
  ⟨fun _ _ _ => PermissionRuntimeCeiling.Extends.trans⟩

variable (toLowercase evaluator action resource) in
/-- What is left of an ancestor's ceiling further down the chain. -/
structure KeepsCeiling (ancestor descendant : ChildPermissionPolicyLayers) : Prop where
  /-- what a rule of the ancestor's ceiling restricts is never allowed -/
  ask_le : ∀ rule ∈ ceilingMatch toLowercase evaluator action resource ancestor,
    .ask ≤ childEffect toLowercase evaluator action resource descendant
  /-- the ancestor's last matching rule holds on, unless a rule added behind it matches -/
  effect_le : ∀ rule ∈ ceilingMatch toLowercase evaluator action resource ancestor,
    ∀ before after, descendant.parentRuntimeCeiling.rules =
        before ++ ancestor.parentRuntimeCeiling.rules ++ after →
      (∀ later ∈ after, ruleMatches toLowercase evaluator action resource later = false) →
      rule.effect ≤ childEffect toLowercase evaluator action resource descendant

/-- A rule of a ceiling that matches keeps the child from being allowed. -/
theorem ask_le_of_ceilingMatch {layers : ChildPermissionPolicyLayers}
    (h : (ceilingMatch toLowercase evaluator action resource layers).isSome) :
    .ask ≤ childEffect toLowercase evaluator action resource layers := by
  obtain ⟨rule, hrule⟩ := Option.isSome_iff_exists.mp h
  have hne := layers.parentRuntimeCeiling.effect_ne_allow rule (mem_of_lastMatch hrule)
  exact (PermissionEffect.ask_le_iff.mpr hne).trans ((neverWidens layers).ceiling_le rule hrule)

theorem keepsCeiling_of_extends {ancestor descendant : ChildPermissionPolicyLayers}
    (h : Delegates ancestor descendant) :
    KeepsCeiling toLowercase evaluator action resource ancestor descendant where
  ask_le := by
    intro rule hrule
    apply ask_le_of_ceilingMatch
    obtain ⟨before, after, hrules⟩ := h
    apply lastMatch_isSome.mpr
    refine ⟨rule, ?_, ruleMatches_of_lastMatch hrule⟩
    rw [hrules, List.mem_append, List.mem_append]
    exact .inl (.inr (mem_of_lastMatch hrule))
  effect_le := by
    intro rule hrule before after hrules hlater
    have hafter : lastMatch toLowercase evaluator action resource after = none := by
      rw [← Option.not_isSome_iff_eq_none, lastMatch_isSome]
      rintro ⟨later, hmem, hmatch⟩
      rw [hlater later hmem] at hmatch
      cases hmatch
    have hinherited : lastMatch toLowercase evaluator action resource
        ancestor.parentRuntimeCeiling.rules = some rule := hrule
    apply (neverWidens descendant).ceiling_le
    rw [Option.mem_def, ceilingMatch, hrules, lastMatch_append, hafter, Option.none_or,
      lastMatch_append, hinherited, Option.some_or]

/-- **Delegation never widens permissions**: at every delegation of a chain the effect is at least
as restrictive as without the ceiling and as the ceiling, it is the former where no rule of the
ceiling matches, an enforced rule decides the host's part, and only a rule outside the ceiling can
allow. Along the chain nothing that an inherited rule restricts becomes allowed, and the inherited
decision itself holds on unless a rule that was added behind it matches. -/
theorem delegation_never_widens (toLowercase : List Char → List Char)
    (evaluator : PermissionEvaluator) (action resource : String)
    (chain : List ChildPermissionPolicyLayers) (hchain : chain.IsChain Delegates) :
    (∀ layers ∈ chain, NeverWidens toLowercase evaluator action resource layers) ∧
      chain.Pairwise (KeepsCeiling toLowercase evaluator action resource) := by
  refine ⟨fun layers _ => neverWidens layers, ?_⟩
  apply (List.isChain_iff_pairwise.mp hchain).imp
  exact keepsCeiling_of_extends

/-- **What a parent restricts binds its child**: what the ceiling takes over is never allowed, and
where the last match of the parent's definition does not allow, its effect stands. -/
theorem derived_ceiling_binds (toLowercase : List Char → List Char)
    (evaluator : PermissionEvaluator) (action resource : String)
    (profileRules definitionRules : List PermissionRule) (layers : ChildPermissionPolicyLayers) :
    let child := { layers with
      parentRuntimeCeiling := deriveParentPermissionRuntimeCeiling profileRules definitionRules }
    (∀ rule ∈ deriveParentRules profileRules definitionRules,
      ruleMatches toLowercase evaluator action resource rule = true →
        .ask ≤ childEffect toLowercase evaluator action resource child) ∧
    ∀ rule ∈ lastMatch toLowercase evaluator action resource definitionRules,
      rule.effect ≠ .allow →
        rule.effect ≤ childEffect toLowercase evaluator action resource child := by
  intro child
  refine ⟨fun rule hrule hmatch => ?_, fun rule hrule heffect => ?_⟩
  · exact ask_le_of_ceilingMatch (lastMatch_isSome.mpr ⟨rule, hrule, hmatch⟩)
  · apply (neverWidens child).ceiling_le
    have hkept : lastMatch toLowercase evaluator action resource
        (definitionRules.filter fun rule => rule.effect ≠ .allow) = some rule := by
      rw [Option.mem_def, lastMatch, List.find?_eq_some_iff_append] at hrule
      obtain ⟨hmatch, after, before, hrules, hafter⟩ := hrule
      rw [lastMatch, ← List.filter_reverse, hrules, List.filter_append,
        List.filter_cons_of_pos (by simpa using heffect)]
      refine List.find?_eq_some_iff_append.mpr ⟨hmatch, _, _, rfl, fun rule hrule => ?_⟩
      exact hafter rule (List.mem_filter.mp hrule).1
    rw [Option.mem_def, ceilingMatch, ← hkept]
    change lastMatch _ _ _ _ (deriveParentRules _ _) = _
    rw [deriveParentRules, lastMatch_append, hkept, Option.some_or]

end

/-! ## An inherited denial that becomes a question -/

/-- A delegated agent whose own layers allow everything. -/
def unrestrictedLayers (ceiling : PermissionRuntimeCeiling) : ChildPermissionPolicyLayers where
  productDefaults := []
  global := ⟨.fullAccess, []⟩
  mode := none
  project := []
  childAgent := []
  parentRuntimeCeiling := ceiling
  enforced := []

/-- A ceiling that denies all commands. -/
def denyCeiling : PermissionRuntimeCeiling := ⟨[⟨"bash", "*", .deny⟩], by decide⟩

/-- The same ceiling, with a question about `git push` behind it. -/
def denyThenAskCeiling : PermissionRuntimeCeiling :=
  ⟨[⟨"bash", "*", .deny⟩, ⟨"bash", "git push *", .ask⟩], by decide⟩

theorem denyCeiling_extends : denyCeiling.Extends denyThenAskCeiling :=
  ⟨[], [⟨"bash", "git push *", .ask⟩], rfl⟩

/-- The ceiling of the first delegation denies a command, and the second delegation, whose ceiling
contains it, asks. -/
theorem inherited_denial_weakened :
    [unrestrictedLayers denyCeiling, unrestrictedLayers denyThenAskCeiling].IsChain Delegates ∧
    ceilingMatch Text.toAsciiLowercase ⟨.sensitive⟩ "bash" "git push"
      (unrestrictedLayers denyCeiling) = some ⟨"bash", "*", .deny⟩ ∧
    childEffect Text.toAsciiLowercase ⟨.sensitive⟩ "bash" "git push"
      (unrestrictedLayers denyThenAskCeiling) = .ask := by
  refine ⟨?_, by decide +kernel, by decide +kernel⟩
  exact .cons_cons denyCeiling_extends (.singleton _)

theorem delegation_never_widens_two :
    [unrestrictedLayers denyCeiling, unrestrictedLayers denyThenAskCeiling].IsChain Delegates ∧
    (.ask ≤ childEffect Text.toAsciiLowercase ⟨.sensitive⟩ "bash" "git push"
      (unrestrictedLayers denyThenAskCeiling)) := by
  have hchain : [unrestrictedLayers denyCeiling,
      unrestrictedLayers denyThenAskCeiling].IsChain Delegates :=
    .cons_cons denyCeiling_extends (.singleton _)
  have h := (delegation_never_widens Text.toAsciiLowercase ⟨.sensitive⟩ "bash" "git push" _
    hchain).2
  exact ⟨hchain, (List.pairwise_pair.mp h).ask_le ⟨"bash", "*", .deny⟩ (by decide +kernel)⟩

end ToolPermissions

end OpenBitFun
