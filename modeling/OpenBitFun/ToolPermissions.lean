import Mathlib
import OpenBitFun.Lists
import OpenBitFun.PermissionWildcard

/-!
# Tool permissions

The domain contracts of tool-call permissions (`tool_permissions.rs`): rules and their effects, the
layers a policy is resolved from, and the evaluator. In a rule list the last matching rule wins.
The host's rules are one list; restriction layers are evaluated on their own and can only make the
result more restrictive.
-/

namespace OpenBitFun

open List

namespace ToolPermissions

/-! ## Effects -/

/-- `PermissionEffect`. -/
inductive PermissionEffect where
  | allow
  | ask
  | deny
  deriving DecidableEq, Repr

namespace PermissionEffect

/-- `most_restrictive`. -/
def mostRestrictive : PermissionEffect → PermissionEffect → PermissionEffect
  | .deny, _ | _, .deny => .deny
  | .ask, _ | _, .ask => .ask
  | .allow, .allow => .allow

/-- How restrictive an effect is. -/
def rank : PermissionEffect → ℕ
  | .allow => 0
  | .ask => 1
  | .deny => 2

theorem rank_injective : Function.Injective rank := by
  intro a b h
  cases a <;> cases b <;> first | rfl | cases h

/-- Effects are ordered by how restrictive they are. -/
instance : LinearOrder PermissionEffect := LinearOrder.lift' rank rank_injective

/-- The combination of two decisions is the more restrictive one. -/
@[simp] theorem mostRestrictive_eq_max (a b : PermissionEffect) : a.mostRestrictive b = max a b := by
  cases a <;> cases b <;> rfl

@[simp] theorem allow_le (a : PermissionEffect) : allow ≤ a := Nat.zero_le _

@[simp] theorem le_deny (a : PermissionEffect) : a ≤ deny := by
  cases a <;> decide

theorem deny_le_iff {a : PermissionEffect} : deny ≤ a ↔ a = deny := by
  cases a <;> decide

theorem le_allow_iff {a : PermissionEffect} : a ≤ allow ↔ a = allow := by
  cases a <;> decide

theorem le_ask_iff {a : PermissionEffect} : a ≤ ask ↔ a ≠ deny := by
  cases a <;> decide

theorem ask_le_iff {a : PermissionEffect} : ask ≤ a ↔ a ≠ allow := by
  cases a <;> decide

end PermissionEffect

/-! ## Rules and layers -/

/-- `PermissionRule`. -/
structure PermissionRule where
  action : String
  resource : String
  effect : PermissionEffect
  deriving DecidableEq, Repr

/-- `PermissionConstraintLayer`. -/
structure PermissionConstraintLayer where
  rules : List PermissionRule
  deriving DecidableEq, Repr

/-- `ResolvedPermissionPolicy`. -/
structure ResolvedPermissionPolicy where
  rules : List PermissionRule
  constraintLayers : List PermissionConstraintLayer
  deriving DecidableEq, Repr

/-- `PermissionRuntimeCeiling`: the restrictions a delegated agent inherits, none of which
allows. -/
structure PermissionRuntimeCeiling where
  rules : List PermissionRule
  effect_ne_allow : ∀ rule ∈ rules, rule.effect ≠ .allow
  deriving DecidableEq, Repr

/-- `PermissionRuntimeCeilingValidationError`. -/
structure PermissionRuntimeCeilingValidationError where
  ruleIndex : ℕ
  action : String
  resource : String
  deriving DecidableEq, Repr

/-- The text of the error. -/
def PermissionRuntimeCeilingValidationError.message
    (error : PermissionRuntimeCeilingValidationError) : String :=
  s!"permission runtime ceiling rule {error.ruleIndex} cannot allow action '{error.action}' " ++
    s!"on resource '{error.resource}'"

/-- `PermissionRuntimeCeiling::try_new`: refuses the first rule that allows. -/
def PermissionRuntimeCeiling.tryNew (rules : List PermissionRule) :
    Except PermissionRuntimeCeilingValidationError PermissionRuntimeCeiling :=
  match h : rules.zipIdx.find? fun (rule, _) => rule.effect = .allow with
  | some (rule, ruleIndex) => .error ⟨ruleIndex, rule.action, rule.resource⟩
  | none => .ok ⟨rules, fun rule hrule hallow => by
      obtain ⟨i, hi⟩ := mem_iff_getElem?.mp hrule
      exact find?_eq_none.mp h (rule, i) (mem_zipIdx_iff_getElem?.mpr hi)
        (decide_eq_true hallow)⟩

/-- The rules a ceiling is built from are accepted as they are. -/
theorem PermissionRuntimeCeiling.rules_of_tryNew {rules : List PermissionRule}
    {ceiling : PermissionRuntimeCeiling} (h : tryNew rules = .ok ceiling) :
    ceiling.rules = rules := by
  unfold tryNew at h
  split at h
  · cases h
  · cases h
    rfl

/-- Rules none of which allows are accepted. -/
theorem PermissionRuntimeCeiling.tryNew_rules (ceiling : PermissionRuntimeCeiling) :
    tryNew ceiling.rules = .ok ceiling := by
  unfold tryNew
  split
  · rename_i rule ruleIndex h
    have hmem := mem_zipIdx_iff_getElem?.mp (mem_of_find?_eq_some h)
    have hrule := mem_of_getElem? hmem
    have heffect := find?_some h
    exact absurd (of_decide_eq_true heffect) (ceiling.effect_ne_allow rule hrule)
  · rfl

/-! ## Policies -/

/-- `PermissionPolicyPreset`. -/
inductive PermissionPolicyPreset where
  | ask
  | fullAccess
  deriving DecidableEq, Repr

/-- `PermissionPolicyPreset::baseline_rules`. -/
def PermissionPolicyPreset.baselineRules : PermissionPolicyPreset → List PermissionRule
  | .ask => [
      ⟨"*", "*", .ask⟩,
      ⟨"read", "*", .allow⟩,
      ⟨"read", "*/.env", .ask⟩,
      ⟨"read", "*/.env.*", .ask⟩,
      ⟨"read", "*/.env.example", .allow⟩,
      ⟨"websearch", "*", .allow⟩,
      ⟨"webfetch", "*", .allow⟩,
      ⟨"task", "*", .allow⟩,
      ⟨"skill", "*", .allow⟩,
      ⟨"git", "git status *", .allow⟩,
      ⟨"git", "git diff *", .allow⟩,
      ⟨"git", "git log *", .allow⟩,
      ⟨"git", "git show *", .allow⟩,
      ⟨"git", "git blame *", .allow⟩,
      ⟨"git", "git rev-parse *", .allow⟩,
      ⟨"git", "git describe *", .allow⟩,
      ⟨"git", "git shortlog *", .allow⟩,
      ⟨"git", "git branch", .allow⟩]
  | .fullAccess => [⟨"*", "*", .allow⟩]

/-- `PermissionPolicyConfig`. -/
structure PermissionPolicyConfig where
  preset : PermissionPolicyPreset
  rules : List PermissionRule
  deriving DecidableEq, Repr

/-- `PermissionMode`. -/
inductive PermissionMode where
  | ask
  | autoApprove
  | fullAccess
  deriving DecidableEq, Repr

/-- `PermissionMode::preset`. -/
def PermissionMode.preset : PermissionMode → PermissionPolicyPreset
  | .ask | .autoApprove => .ask
  | .fullAccess => .fullAccess

/-- `PermissionPolicyLayers`. -/
structure PermissionPolicyLayers where
  productDefaults : List PermissionRule
  global : PermissionPolicyConfig
  mode : Option PermissionMode
  project : List PermissionRule
  agent : List PermissionRule
  enforced : List PermissionRule
  deriving DecidableEq, Repr

/-- `ChildPermissionPolicyLayers`. -/
structure ChildPermissionPolicyLayers where
  productDefaults : List PermissionRule
  global : PermissionPolicyConfig
  mode : Option PermissionMode
  project : List PermissionRule
  childAgent : List PermissionRule
  parentRuntimeCeiling : PermissionRuntimeCeiling
  enforced : List PermissionRule
  deriving DecidableEq, Repr

/-- `effective_preset`. -/
def effectivePreset (mode : Option PermissionMode) (global : PermissionPolicyConfig) :
    PermissionPolicyPreset :=
  (mode.map PermissionMode.preset).getD global.preset

/-- `merge_permission_rule_layers`. -/
def mergePermissionRuleLayers (layers : List (List PermissionRule)) : List PermissionRule :=
  layers.foldl (fun merged layer => merged ++ layer) []

/-- `resolve_permission_policy`. -/
def resolvePermissionPolicy (layers : PermissionPolicyLayers) : ResolvedPermissionPolicy :=
  let baseline := (effectivePreset layers.mode layers.global).baselineRules
  ⟨mergePermissionRuleLayers [layers.productDefaults, baseline, layers.global.rules,
    layers.project, layers.agent, layers.enforced], []⟩

/-- `resolve_child_permission_policy`. -/
def resolveChildPermissionPolicy (layers : ChildPermissionPolicyLayers) :
    ResolvedPermissionPolicy :=
  let baseline := (effectivePreset layers.mode layers.global).baselineRules
  ⟨mergePermissionRuleLayers [layers.productDefaults, baseline, layers.global.rules,
    layers.project, layers.childAgent, layers.enforced],
    [⟨layers.parentRuntimeCeiling.rules⟩]⟩

/-! ## The evaluator -/

/-- `PermissionEvaluator`. -/
structure PermissionEvaluator where
  resourceCaseSensitivity : PermissionResourceCaseSensitivity
  deriving DecidableEq, Repr

namespace PermissionEvaluator

section Definitions

variable (toLowercase : List Char → List Char) (evaluator : PermissionEvaluator)
  (action resource : String)

/-- The test a rule has to pass. -/
def ruleMatches (rule : PermissionRule) : Bool :=
  wildcardMatches toLowercase action rule.action .sensitive &&
    wildcardMatches toLowercase resource rule.resource evaluator.resourceCaseSensitivity

/-- The last rule that matches. -/
def lastMatch (rules : List PermissionRule) : Option PermissionRule :=
  rules.reverse.find? (ruleMatches toLowercase evaluator action resource)

/-- `evaluate_resource`. -/
def evaluateResource (rules : List PermissionRule) : PermissionEffect :=
  ((lastMatch toLowercase evaluator action resource rules).map (·.effect)).getD .ask

/-- `evaluate_constraint_resource`. -/
def evaluateConstraintResource (layer : PermissionConstraintLayer) : PermissionEffect :=
  ((lastMatch toLowercase evaluator action resource layer.rules).map (·.effect)).getD .allow

/-- `evaluate_policy_resource`. -/
def evaluatePolicyResource (policy : ResolvedPermissionPolicy) : PermissionEffect :=
  policy.constraintLayers.foldl
    (fun effect layer => effect.mostRestrictive
      (evaluateConstraintResource toLowercase evaluator action resource layer))
    (evaluateResource toLowercase evaluator action resource policy.rules)

/-- `evaluate_resources`: the loop over the resources, from the effect of those before. -/
def aggregateResources (rules : List PermissionRule) :
    (aggregate : PermissionEffect) → (resources : List String) → PermissionEffect
  | aggregate, [] => aggregate
  | aggregate, resource :: resources =>
    match evaluateResource toLowercase evaluator action resource rules with
    | .deny => .deny
    | .ask => aggregateResources rules .ask resources
    | .allow => aggregateResources rules aggregate resources

/-- `evaluate_resources`. -/
def evaluateResources (resources : List String) (rules : List PermissionRule) :
    PermissionEffect :=
  if resources.isEmpty then .ask
  else aggregateResources toLowercase evaluator action rules .allow resources

end Definitions

variable {toLowercase : List Char → List Char} {evaluator : PermissionEvaluator}
  {action resource : String} {rule : PermissionRule} {rules rules' : List PermissionRule}

/-- A later list is looked through first. -/
theorem lastMatch_append : lastMatch toLowercase evaluator action resource (rules ++ rules') =
    (lastMatch toLowercase evaluator action resource rules').or
      (lastMatch toLowercase evaluator action resource rules) := by
  rw [lastMatch, reverse_append, find?_append]
  rfl

theorem mem_of_lastMatch (h : lastMatch toLowercase evaluator action resource rules = some rule) :
    rule ∈ rules :=
  mem_reverse.mp (mem_of_find?_eq_some h)

theorem ruleMatches_of_lastMatch
    (h : lastMatch toLowercase evaluator action resource rules = some rule) :
    ruleMatches toLowercase evaluator action resource rule = true :=
  find?_some h

theorem lastMatch_isSome : (lastMatch toLowercase evaluator action resource rules).isSome ↔
    ∃ rule ∈ rules, ruleMatches toLowercase evaluator action resource rule = true := by
  simp [lastMatch]

/-- The combination of effects is the most restrictive of them. -/
theorem foldl_mostRestrictive_le_iff {α : Type*} (f : α → PermissionEffect) (l : List α)
    (effect bound : PermissionEffect) :
    l.foldl (fun effect x => effect.mostRestrictive (f x)) effect ≤ bound ↔
      effect ≤ bound ∧ ∀ x ∈ l, f x ≤ bound := by
  induction l generalizing effect with
  | nil => exact (and_iff_left fun x hx => absurd hx not_mem_nil).symm
  | cons x l ih =>
    rw [foldl_cons, ih, PermissionEffect.mostRestrictive_eq_max, max_le_iff, and_assoc,
      forall_mem_cons]

end PermissionEvaluator

end ToolPermissions

end OpenBitFun
