import Mathlib
import OpenBitFun.RouterTokenBudget

/-!
# The Router's input budget

How many tokens of user text one Router request may have. Counts of tokens are estimates, so what
the server reports is used to scale them: a scale in thousandths, which starts at one and is only
ever raised, by a measured count of tokens (`observe_usage`) and by a rejected request
(`observe_overflow`). Sums and products saturate where the source says so; any other product on
`u128` that passes the largest one, and any division by zero, is `none` here.
-/

namespace OpenBitFun

namespace Router

/-! ## Arithmetic on `u128` -/

/-- `u128::MAX`. -/
def u128Max : ℕ := 2 ^ 128 - 1

/-- A product on `u128`. -/
def mulU128 (a b : ℕ) : Option ℕ := if a * b ≤ u128Max then some (a * b) else none

/-- A quotient on `u128`. -/
def divU128 (a b : ℕ) : Option ℕ := if b = 0 then none else some (a / b)

/-- `u128::div_ceil`. -/
def divCeilU128 (a b : ℕ) : Option ℕ := if b = 0 then none else some (a ⌈/⌉ b)

/-! ## The budget -/

/-- `RouterInputBudget`. -/
structure RouterInputBudget where
  contextWindow : ℕ
  maxInputTokens : ℕ
  fixedInputTokens : ℕ
  reserveTokens : ℕ
  scaleMillis : ℕ
deriving DecidableEq, Repr

namespace RouterInputBudget

/-- `RouterInputBudget::new`. -/
def new (contextWindow maxInputTokens systemTokens : UInt64) : RouterInputBudget where
  contextWindow := contextWindow.toNat
  maxInputTokens := maxInputTokens.toNat
  fixedInputTokens := Saturating.add usizeMax systemTokens.toNat 256
  reserveTokens := 128 + min (max (contextWindow.toNat / 10) 256) 8192
  scaleMillis := 1000

/-- `user_budget`. -/
def userBudget (budget : RouterInputBudget) : Option ℕ := do
  let total := budget.contextWindow - budget.reserveTokens
  let rawBudget ← divU128 (← mulU128 total 1000) budget.scaleMillis
  let rawInputCap ← divU128 (← mulU128 budget.maxInputTokens 1000) budget.scaleMillis
  some (min (min rawBudget usizeMax - budget.fixedInputTokens) (min rawInputCap usizeMax))

/-- `observe_usage`. Usage of 0 is not evidence. -/
def observeUsage (budget : RouterInputBudget) (rawUserTokens inputTokens : UInt64) :
    Option RouterInputBudget :=
  if inputTokens = 0 then some budget
  else
    let rawTotal := Saturating.add usizeMax budget.fixedInputTokens rawUserTokens.toNat
    if rawTotal = 0 then some budget
    else do
      let measured ← divCeilU128 (← mulU128 inputTokens.toNat 1000) rawTotal
      if budget.scaleMillis < measured then
        -- A lower later measurement never loosens a budget that was tightened.
        let scale ← divCeilU128 (Saturating.mul u128Max measured 110) 100
        some { budget with scaleMillis := scale }
      else some budget

/-- `observe_overflow`. -/
def observeOverflow (budget : RouterInputBudget) (rawUserTokens : UInt64) :
    Option RouterInputBudget := do
  let rawTotal := max (Saturating.add usizeMax budget.fixedInputTokens rawUserTokens.toNat) 1
  let usable := budget.contextWindow - budget.reserveTokens
  let required ← divCeilU128 (← mulU128 usable 1000) rawTotal
  let scale ← divCeilU128 (Saturating.mul u128Max (max budget.scaleMillis required) 3) 2
  some { budget with scaleMillis := scale }

/-- What is observed of a Router request. -/
inductive Observation
  | usage (rawUserTokens inputTokens : UInt64)
  | overflow (rawUserTokens : UInt64)
deriving DecidableEq, Repr

/-- One observation. -/
def observe (budget : RouterInputBudget) : Observation → Option RouterInputBudget
  | .usage rawUserTokens inputTokens => budget.observeUsage rawUserTokens inputTokens
  | .overflow rawUserTokens => budget.observeOverflow rawUserTokens

/-- A sequence of observations. -/
def observeAll (budget : RouterInputBudget) (observations : List Observation) :
    Option RouterInputBudget :=
  observations.foldlM observe budget

/-! ## Invariant -/

/-- The limits are machine integers, and the scale is between one and what a saturated scale is
halved to. -/
structure WellFormed (budget : RouterInputBudget) : Prop where
  contextWindow_le : budget.contextWindow ≤ usizeMax
  maxInputTokens_le : budget.maxInputTokens ≤ usizeMax
  fixedInputTokens_pos : 0 < budget.fixedInputTokens
  le_scaleMillis : 1000 ≤ budget.scaleMillis
  scaleMillis_le : budget.scaleMillis ≤ 2 ^ 127

/-- The same limits with a scale that is not lower. -/
structure Tightens (budget budget' : RouterInputBudget) : Prop where
  limits : budget' = { budget with scaleMillis := budget'.scaleMillis }
  le : budget.scaleMillis ≤ budget'.scaleMillis
  scale_le : budget'.scaleMillis ≤ 2 ^ 127

variable {budget budget' budget'' : RouterInputBudget}

theorem wellFormed_new (contextWindow maxInputTokens systemTokens : UInt64) :
    (new contextWindow maxInputTokens systemTokens).WellFormed := by
  have hwindow := contextWindow.toNat_lt
  have hmax := maxInputTokens.toNat_lt
  refine ⟨?_, ?_, ?_, Nat.le_refl _, by norm_num [new]⟩
  · simp only [new, usizeMax]
    omega
  · simp only [new, usizeMax]
    omega
  · simp only [new, Saturating.add, usizeMax]
    omega

theorem Tightens.refl (h : budget.WellFormed) : budget.Tightens budget :=
  ⟨rfl, Nat.le_refl _, h.scaleMillis_le⟩

theorem Tightens.trans (h : budget.Tightens budget') (h' : budget'.Tightens budget'') :
    budget.Tightens budget'' where
  limits := by
    rw [h'.limits, h.limits]
  le := h.le.trans h'.le
  scale_le := h'.scale_le

theorem Tightens.wellFormed (h : budget.Tightens budget') (hwf : budget.WellFormed) :
    budget'.WellFormed := by
  have hlow := hwf.le_scaleMillis.trans h.le
  rw [h.limits]
  exact ⟨hwf.contextWindow_le, hwf.maxInputTokens_le, hwf.fixedInputTokens_pos, hlow, h.scale_le⟩

/-! ## What one observation does -/

theorem mulU128_of_le {a : ℕ} (h : a ≤ usizeMax) : mulU128 a 1000 = some (a * 1000) := by
  apply if_pos
  simp only [usizeMax] at h
  simp only [u128Max]
  omega

theorem divU128_of_pos {a b : ℕ} (h : 0 < b) : divU128 a b = some (a / b) := if_neg h.ne'

theorem divCeilU128_of_pos {a b : ℕ} (h : 0 < b) : divCeilU128 a b = some (a ⌈/⌉ b) :=
  if_neg h.ne'

/-- What is measured covers the count of tokens, and is far from what `u128` holds. -/
theorem measured_spec {a total limit : ℕ} (ha : a ≤ usizeMax) (hpos : 0 < total)
    (hlimit : total ≤ limit) :
    ∃ measured, mulU128 a 1000 = some (a * 1000) ∧
      divCeilU128 (a * 1000) total = some measured ∧
      a * 1000 ≤ limit * measured ∧ measured ≤ usizeMax * 1000 := by
  have hcover : a * 1000 ≤ total * (a * 1000 ⌈/⌉ total) := le_smul_ceilDiv hpos
  have hself : a * 1000 ⌈/⌉ total ≤ a * 1000 :=
    (ceilDiv_le_iff_le_mul hpos).2 (Nat.le_mul_of_pos_left _ hpos)
  refine ⟨a * 1000 ⌈/⌉ total, mulU128_of_le ha, divCeilU128_of_pos hpos, ?_, ?_⟩
  · exact hcover.trans (Nat.mul_le_mul_right _ hlimit)
  · exact hself.trans (Nat.mul_le_mul_right _ ha)

/-- The total that usage is measured against. -/
theorem rawTotal_spec (h : budget.WellFormed) (raw : ℕ) :
    0 < Saturating.add usizeMax budget.fixedInputTokens raw ∧
      Saturating.add usizeMax budget.fixedInputTokens raw ≤ budget.fixedInputTokens + raw := by
  have hfixed := h.fixedInputTokens_pos
  refine ⟨Saturating.le_add (by decide) (Nat.le_add_right_of_le hfixed), min_le_left _ _⟩

theorem tightens_of_le {scale : ℕ} (hle : budget.scaleMillis ≤ scale) (h : scale ≤ 2 ^ 127) :
    budget.Tightens { budget with scaleMillis := scale } :=
  ⟨rfl, hle, h⟩

/-- Usage with a count of tokens raises the scale to the measured one, if it is lower. -/
theorem observeUsage_spec (h : budget.WellFormed) (raw input : UInt64) :
    ∃ budget', budget.observeUsage raw input = some budget' ∧ budget.Tightens budget' ∧
      (input ≠ 0 →
        input.toNat * 1000 ≤ (budget.fixedInputTokens + raw.toNat) * budget'.scaleMillis) := by
  have hinput : input.toNat ≤ usizeMax := Nat.le_sub_one_of_lt input.toNat_lt
  obtain ⟨hpos, htotal⟩ := rawTotal_spec h raw.toNat
  obtain ⟨measured, hmul, hdiv, hcover, hbound⟩ := measured_spec hinput hpos htotal
  simp only [usizeMax] at hbound
  unfold observeUsage
  by_cases hzero : input = 0
  · exact ⟨budget, if_pos hzero, .refl h, absurd hzero⟩
  simp only [if_neg hzero, if_neg hpos.ne', bind, hmul, hdiv, Option.bind_some]
  by_cases hraise : budget.scaleMillis < measured
  · -- The measured scale is raised by a tenth, which does not saturate.
    have hexact : Saturating.mul u128Max measured 110 = measured * 110 := by
      apply min_eq_left
      simp only [u128Max]
      omega
    have hscale := divCeilU128_of_pos (a := measured * 110) (b := 100) (by decide)
    rw [Nat.ceilDiv_eq_add_pred_div] at hscale
    rw [if_pos hraise, hexact, hscale]
    refine ⟨_, rfl, tightens_of_le ?_ ?_, fun _ => hcover.trans (Nat.mul_le_mul_left _ ?_)⟩
    · omega
    · omega
    · show measured ≤ (measured * 110 + 100 - 1) / 100
      omega
  · rw [if_neg hraise]
    refine ⟨budget, rfl, .refl h, fun _ => hcover.trans (Nat.mul_le_mul_left _ ?_)⟩
    exact Nat.not_lt.1 hraise

/-- A rejected request raises the scale by half, to one at which the context window does not hold
what was rejected. A saturated scale stays where it is. -/
theorem observeOverflow_spec (h : budget.WellFormed) (raw : UInt64) :
    ∃ budget', budget.observeOverflow raw = some budget' ∧ budget.Tightens budget' ∧
      (budget.contextWindow - budget.reserveTokens) * 1000 ≤
        (budget.fixedInputTokens + raw.toNat) * budget'.scaleMillis := by
  have husable : budget.contextWindow - budget.reserveTokens ≤ usizeMax :=
    (Nat.sub_le _ _).trans h.contextWindow_le
  obtain ⟨hpos, htotal⟩ := rawTotal_spec h raw.toNat
  obtain ⟨required, hmul, hdiv, hcover, hbound⟩ := measured_spec husable hpos htotal
  have hscale := h.scaleMillis_le
  simp only [usizeMax] at hbound
  unfold observeOverflow
  simp only [Nat.max_eq_left hpos, bind, hmul, hdiv, Option.bind_some]
  -- Half of what a product saturates at is the most a scale can be.
  have hraise : max budget.scaleMillis required ≤
      Saturating.mul u128Max (max budget.scaleMillis required) 3 ⌈/⌉ 2 ∧
      Saturating.mul u128Max (max budget.scaleMillis required) 3 ⌈/⌉ 2 ≤ 2 ^ 127 := by
    rw [Nat.ceilDiv_eq_add_pred_div]
    simp only [Saturating.mul, u128Max]
    omega
  rw [divCeilU128_of_pos (by decide)]
  refine ⟨_, rfl, tightens_of_le ((le_max_left _ _).trans hraise.1) hraise.2, ?_⟩
  exact hcover.trans (Nat.mul_le_mul_left _ ((le_max_right _ _).trans hraise.1))

/-! ## Runs -/

/-- Any observation is taken in, and only tightens the budget. -/
theorem observe_tightens (h : budget.WellFormed) (observation : Observation) :
    ∃ budget', budget.observe observation = some budget' ∧ budget.Tightens budget' := by
  cases observation with
  | usage raw input =>
    obtain ⟨budget', hbudget', htightens, -⟩ := observeUsage_spec h raw input
    exact ⟨budget', hbudget', htightens⟩
  | overflow raw =>
    obtain ⟨budget', hbudget', htightens, -⟩ := observeOverflow_spec h raw
    exact ⟨budget', hbudget', htightens⟩

theorem observeAll_tightens (observations : List Observation) :
    ∀ {budget : RouterInputBudget}, budget.WellFormed →
      ∃ budget', budget.observeAll observations = some budget' ∧ budget.Tightens budget' := by
  induction observations with
  | nil => exact fun {budget} h => ⟨budget, rfl, .refl h⟩
  | cons observation observations ih =>
    intro budget h
    obtain ⟨next, hnext, htightens⟩ := observe_tightens h observation
    obtain ⟨budget', hbudget', htightens'⟩ := ih (htightens.wellFormed h)
    refine ⟨budget', ?_, htightens.trans htightens'⟩
    unfold observeAll
    rw [List.foldlM_cons, hnext]
    exact hbudget'

/-! ## What the budget allows -/

/-- The user budget of a scale that is not zero. -/
theorem userBudget_eq (h : budget.WellFormed) :
    budget.userBudget = some
      (min
        (min ((budget.contextWindow - budget.reserveTokens) * 1000 / budget.scaleMillis)
          usizeMax - budget.fixedInputTokens)
        (min (budget.maxInputTokens * 1000 / budget.scaleMillis) usizeMax)) := by
  have htotal : budget.contextWindow - budget.reserveTokens ≤ usizeMax :=
    (Nat.sub_le _ _).trans h.contextWindow_le
  have hscale : 0 < budget.scaleMillis := Nat.lt_of_lt_of_le (by decide) h.le_scaleMillis
  unfold userBudget
  simp only [mulU128_of_le htotal, mulU128_of_le h.maxInputTokens_le, divU128_of_pos hscale, bind,
    Option.bind_some]

theorem userBudget_anti (h : budget.WellFormed) (htightens : budget.Tightens budget') {allowed
    allowed' : ℕ} (hallowed : budget.userBudget = some allowed)
    (hallowed' : budget'.userBudget = some allowed') : allowed' ≤ allowed := by
  have hscale : 0 < budget.scaleMillis := Nat.lt_of_lt_of_le (by decide) h.le_scaleMillis
  have hquotient : ∀ a, a / budget'.scaleMillis ≤ a / budget.scaleMillis :=
    fun a => Nat.div_le_div_left htightens.le hscale
  rw [userBudget_eq h, Option.some.injEq] at hallowed
  rw [userBudget_eq (htightens.wellFormed h), htightens.limits, Option.some.injEq] at hallowed'
  rw [← hallowed, ← hallowed']
  refine min_le_min (Nat.sub_le_sub_right ?_ _) ?_
  · exact min_le_min_right _ (hquotient _)
  · exact min_le_min_right _ (hquotient _)

/-- With the fixed part, and scaled, what is allowed fits the context window. -/
theorem scaled_le (h : budget.WellFormed) {allowed u : ℕ}
    (hallowed : budget.userBudget = some allowed) (hu : u ≤ allowed) (hpos : 0 < u) :
    (budget.fixedInputTokens + u) * budget.scaleMillis ≤
      (budget.contextWindow - budget.reserveTokens) * 1000 := by
  rw [userBudget_eq h, Option.some.injEq] at hallowed
  have hfits : budget.fixedInputTokens + u ≤
      (budget.contextWindow - budget.reserveTokens) * 1000 / budget.scaleMillis := by
    omega
  exact (Nat.mul_le_mul_right _ hfits).trans (Nat.div_mul_le_self _ _)

/-- Usage that was measured is safe: a prompt the budget allows, scaled as the measured one was,
fits the context window without its reserve. -/
theorem usage_safe (h : budget.WellFormed) {raw input : UInt64} (hinput : input ≠ 0)
    (hobserve : budget.observeUsage raw input = some budget') {allowed u : ℕ}
    (hallowed : budget'.userBudget = some allowed) (hu : u ≤ allowed) (hpos : 0 < u) :
    (budget.fixedInputTokens + u) * input.toNat ≤
      (budget.fixedInputTokens + raw.toNat) * (budget.contextWindow - budget.reserveTokens) := by
  obtain ⟨next, hnext, htightens, hcover⟩ := observeUsage_spec h raw input
  obtain rfl : next = budget' := Option.some.inj (hnext.symm.trans hobserve)
  have hscaled := scaled_le (htightens.wellFormed h) hallowed hu hpos
  rw [htightens.limits] at hscaled
  simp only at hscaled
  set window := budget.contextWindow - budget.reserveTokens
  set fixed := budget.fixedInputTokens
  have hmeasured := hcover hinput
  have hthousand : (fixed + u) * input.toNat * 1000 ≤ (fixed + raw.toNat) * window * 1000 := by
    calc (fixed + u) * input.toNat * 1000
        = (fixed + u) * (input.toNat * 1000) := Nat.mul_assoc _ _ _
      _ ≤ (fixed + u) * ((fixed + raw.toNat) * next.scaleMillis) :=
        Nat.mul_le_mul_left _ hmeasured
      _ = (fixed + raw.toNat) * ((fixed + u) * next.scaleMillis) := Nat.mul_left_comm _ _ _
      _ ≤ (fixed + raw.toNat) * (window * 1000) := Nat.mul_le_mul_left _ hscaled
      _ = (fixed + raw.toNat) * window * 1000 := (Nat.mul_assoc _ _ _).symm
  exact Nat.le_of_mul_le_mul_right hthousand (by decide)

/-- What was rejected is not allowed again. -/
theorem overflow_safe (h : budget.WellFormed) {raw : UInt64}
    (hobserve : budget.observeOverflow raw = some budget') {allowed : ℕ}
    (hallowed : budget'.userBudget = some allowed) : allowed ≤ raw.toNat := by
  obtain ⟨next, hnext, htightens, hcover⟩ := observeOverflow_spec h raw
  obtain rfl : next = budget' := Option.some.inj (hnext.symm.trans hobserve)
  obtain rfl | hpos := Nat.eq_zero_or_pos allowed
  · exact Nat.zero_le _
  have hwf := htightens.wellFormed h
  have hscale : 0 < next.scaleMillis := Nat.lt_of_lt_of_le (by decide) hwf.le_scaleMillis
  have hscaled := scaled_le hwf hallowed (Nat.le_refl _) hpos
  rw [htightens.limits] at hscaled
  simp only at hscaled
  have hsum : budget.fixedInputTokens + allowed ≤ budget.fixedInputTokens + raw.toNat :=
    Nat.le_of_mul_le_mul_right (hscaled.trans hcover) hscale
  exact Nat.le_of_add_le_add_left hsum

/-- A run of observations from a new budget: every observation and the user budget have a value (no
division by zero, and no product passes the largest `u128` where it does not saturate), the scale is
at least one and never lowered, the user budget never grows, what usage has measured is safe and
what was rejected is not allowed again. -/
theorem onlyTightens_safe (contextWindow maxInputTokens systemTokens : UInt64)
    (observations : List Observation) :
    let initial := new contextWindow maxInputTokens systemTokens
    ∃ budget allowed, initial.observeAll observations = some budget ∧
      budget.userBudget = some allowed ∧ 1000 ≤ budget.scaleMillis ∧
      (∀ later, ∃ budget' allowed', initial.observeAll (observations ++ later) = some budget' ∧
        budget'.userBudget = some allowed' ∧ budget.scaleMillis ≤ budget'.scaleMillis ∧
        allowed' ≤ allowed) ∧
      (∀ raw input : UInt64, 0 < input.toNat → ∃ budget' allowed',
        budget.observeUsage raw input = some budget' ∧ budget'.userBudget = some allowed' ∧
        ∀ u, 0 < u → u ≤ allowed' →
          ((initial.fixedInputTokens + u) * input.toNat : ℤ) ≤
            (initial.fixedInputTokens + raw.toNat) *
              (initial.contextWindow - initial.reserveTokens)) ∧
      ∀ raw : UInt64, ∃ budget' allowed', budget.observeOverflow raw = some budget' ∧
        budget'.userBudget = some allowed' ∧ allowed' ≤ raw.toNat := by
  intro initial
  have hinitial : initial.WellFormed := wellFormed_new contextWindow maxInputTokens systemTokens
  obtain ⟨budget, hbudget, htightens⟩ := observeAll_tightens observations hinitial
  have h := htightens.wellFormed hinitial
  refine ⟨budget, _, hbudget, userBudget_eq h, h.le_scaleMillis, fun later => ?_,
    fun raw input hinput => ?_, fun raw => ?_⟩
  · obtain ⟨budget', hbudget', htightens'⟩ := observeAll_tightens later h
    have hallowed' := userBudget_eq (htightens'.wellFormed h)
    refine ⟨budget', _, ?_, hallowed', htightens'.le,
      userBudget_anti h htightens' (userBudget_eq h) hallowed'⟩
    unfold observeAll at hbudget hbudget' ⊢
    rw [List.foldlM_append, hbudget]
    exact hbudget'
  · obtain ⟨budget', hbudget', htightens', -⟩ := observeUsage_spec h raw input
    have hallowed' := userBudget_eq (htightens'.wellFormed h)
    refine ⟨budget', _, hbudget', hallowed', fun u hpos hu => ?_⟩
    have hne : input ≠ 0 := by
      rintro rfl
      exact absurd hinput (by decide)
    have hsafe := usage_safe h hne hbudget' hallowed' hu hpos
    rw [htightens.limits] at hsafe
    simp only at hsafe
    -- Something is allowed, so the reserve is a part of the context window.
    have hreserve : initial.reserveTokens ≤ initial.contextWindow := by
      by_contra hlt
      have hpositive : 0 < (initial.fixedInputTokens + u) * input.toNat :=
        Nat.mul_pos (Nat.add_pos_right _ hpos) hinput
      rw [Nat.sub_eq_zero_of_le (Nat.le_of_not_le hlt), Nat.mul_zero] at hsafe
      omega
    rw [← Nat.cast_sub hreserve]
    exact_mod_cast hsafe
  · obtain ⟨budget', hbudget', htightens', -⟩ := observeOverflow_spec h raw
    have hallowed' := userBudget_eq (htightens'.wellFormed h)
    exact ⟨budget', _, hbudget', hallowed', overflow_safe h hbudget' hallowed'⟩

end RouterInputBudget

end Router

end OpenBitFun
