import OpenBitFun.RouterContext
import OpenBitFun.RouterTokenBudget

/-!
# The Router's input is within its budget

`prepare` measures every input before it returns it, except the last one: a frame of fixed texts
around a truncated task. That one fits because counters are sub-additive and the frame is short.
`truncate` in turn measures every candidate of its binary search, so it needs nothing of the
counter but that an empty text costs nothing.
-/

namespace OpenBitFun

namespace Router

variable {counter : RouterTokenCounter}

/-- The last resort behind its task. -/
def exhausted : String :=
  "\n\n## Earlier history summary\n" ++ "(context budget exhausted)" ++
    "\n\n## Recent trajectory\n" ++ "[]"

/-- What `prepare` relies on: an empty text costs nothing, a text costs at most what its parts cost,
and the frame of the last resort costs at most the 160 tokens that are reserved for it. -/
structure RouterTokenCounter.Frugal (counter : RouterTokenCounter) : Prop where
  empty : counter.count "" = 0
  append (a b : String) : counter.count (a ++ b) ≤ counter.count a + counter.count b
  frame : counter.count "## Task\n" + counter.count exhausted ≤ 160

theorem frugal_utf8ByteBudget : Utf8ByteBudget.Frugal where
  empty := rfl
  append a b := by
    simp only [Utf8ByteBudget, String.toList_append, Text.byteLength_append]
    exact Nat.le_refl _
  frame := by decide +kernel

theorem frugal_estimatedRouterTokens : EstimatedRouterTokens.Frugal where
  empty := by decide +kernel
  append a b := by
    have hle := estimate_insert a.toList b.toList []
    rw [List.append_nil, List.append_nil] at hle
    simp only [EstimatedRouterTokens, String.toList_append]
    exact Nat.le_trans hle (Nat.min_le_left _ _)
  frame := by decide +kernel

/-! ## Truncation -/

theorem byteLength_truncateSource_le (text : List Char) :
    Text.byteLength (truncateSource text) ≤ 65536 := by
  have htake : ∀ (n : ℕ) (t : List Char), Text.byteLength (Text.takeBytes n t) ≤ n := by
    intro n t
    induction t generalizing n with
    | nil => exact Nat.zero_le n
    | cons c t ih =>
      rw [Text.takeBytes]
      split
      · rename_i hc
        have := ih (n - c.utf8Size)
        rw [Text.byteLength_cons]
        omega
      · exact Nat.zero_le n
  have hreverse : ∀ t : List Char, Text.byteLength t.reverse = Text.byteLength t := by
    intro t
    rw [Text.byteLength, List.map_reverse, List.sum_reverse]
    rfl
  rw [truncateSource]
  split
  · have hhead := htake 16384 text
    have htail := htake 16384 text.reverse
    have hmark : Text.byteLength "\n[source middle omitted]\n".toList = 25 := by decide +kernel
    rw [Text.byteLength_append, Text.byteLength_append, Text.takeBytesEnd, hreverse, hmark]
    omega
  · omega

/-- Every candidate of the binary search was measured. -/
theorem count_truncateSearch_le {budget : ℕ} (text : List Char) (low high : ℕ)
    {best : List Char} (h : counter.count (String.ofList best) ≤ budget) :
    counter.count (String.ofList (truncateSearch counter text budget low high best)) ≤ budget := by
  fun_induction truncateSearch counter text budget low high best with
  | case1 low high best hle keep candidate hfits ih => exact ih hfits
  | case2 => exact h
  | case3 low high best hle keep candidate hfits hkeep ih => exact ih h
  | case4 => exact h

theorem count_truncate_le (hempty : counter.count "" = 0) (text : String) (budget : ℕ) :
    counter.count (truncate text budget counter) ≤ budget := by
  rw [truncate]
  split
  · assumption
  · apply count_truncateSearch_le
    exact hempty.trans_le (Nat.zero_le budget)

/-- What a text costs of which `keep` characters are kept. -/
def RouterTokenCounter.cost (counter : RouterTokenCounter) (text : List Char) (keep : ℕ) : ℕ :=
  counter.count (String.ofList (headTail text keep))

/-- More characters of a text never cost less. -/
def RouterTokenCounter.GrowsOn (counter : RouterTokenCounter) (text : List Char) : Prop :=
  ∀ more ≤ text.length, ∀ keep ≤ more, counter.cost text keep ≤ counter.cost text more

/-- A result keeps the most characters of a text that fit, or is empty where none do. -/
def RouterTokenCounter.KeepsMost (counter : RouterTokenCounter) (text : List Char) (budget : ℕ)
    (result : List Char) : Prop :=
  (∃ keep ≤ text.length, result = headTail text keep ∧ counter.cost text keep ≤ budget ∧
    ∀ more ≤ text.length, keep < more → budget < counter.cost text more) ∨
  result = [] ∧ ∀ more ≤ text.length, budget < counter.cost text more

/-- The search keeps the most: `best` is the one below `low`, and none above `high` fits. -/
theorem truncateSearch_keepsMost {text : List Char} {budget low high : ℕ} {best : List Char}
    (hgrows : counter.GrowsOn text) (hhigh : high ≤ text.length)
    (hbest : low = 0 ∧ best = [] ∨ ∃ keep ≤ text.length, low = keep + 1 ∧
      best = headTail text keep ∧ counter.cost text keep ≤ budget)
    (habove : ∀ more ≤ text.length, high < more → budget < counter.cost text more) :
    counter.KeepsMost text budget (truncateSearch counter text budget low high best) := by
  fun_induction truncateSearch counter text budget low high best with
  | case1 low high best hle keep candidate hfits ih =>
    have hkeep : keep = low + (high - low) / 2 := rfl
    exact ih hhigh (.inr ⟨keep, by omega, rfl, rfl, hfits⟩) habove
  | case2 low high best hle keep candidate hfits hzero =>
    have hkeep : keep = low + (high - low) / 2 := rfl
    obtain ⟨-, hnil⟩ | ⟨_, -, hlow, -⟩ := hbest
    · refine .inr ⟨hnil, fun more hmore => ?_⟩
      exact (Nat.not_le.1 hfits).trans_le (hgrows more hmore keep (by omega))
    · omega
  | case3 low high best hle keep candidate hfits hzero ih =>
    have hkeep : keep = low + (high - low) / 2 := rfl
    refine ih (by omega) hbest fun more hmore hlt => ?_
    exact (Nat.not_le.1 hfits).trans_le (hgrows more hmore keep (by omega))
  | case4 low high best hle =>
    obtain ⟨hzero, -⟩ | ⟨keep, hkeep, hlow, hbest, hfits⟩ := hbest
    · omega
    · exact .inl ⟨keep, hkeep, hbest, hfits, fun more hmore _ => habove more hmore (by omega)⟩

/-- **`truncate` keeps the most that fits**: the source is whole if it fits, and else as much of
its head and tail as does. The call on a shortened source agrees. -/
theorem truncate_keepsMost (text : String) (budget : ℕ) :
    let source := truncateSource text.toList
    let result := truncate text budget counter
    truncate (String.ofList source) budget counter = result ∧
      (counter.count (String.ofList source) ≤ budget → result = String.ofList source) ∧
      (budget < counter.count (String.ofList source) → counter.GrowsOn source →
        counter.KeepsMost source budget result.toList) := by
  intro source result
  have hshort : truncateSource source = source :=
    if_neg (Nat.not_lt.2 (byteLength_truncateSource_le _))
  refine ⟨?_, fun hfits => if_pos hfits, fun hbudget hgrows => ?_⟩
  · simp only [truncate, String.toList_ofList, hshort, result, source]
  · have hresult : result = .ofList (truncateSearch counter source budget 0 source.length []) :=
      if_neg (Nat.not_le.2 hbudget)
    rw [hresult, String.toList_ofList]
    exact truncateSearch_keepsMost hgrows (Nat.le_refl _) (.inl ⟨rfl, rfl⟩)
      fun more hmore hlt => absurd hmore (Nat.not_le.2 hlt)

theorem growsOn_utf8ByteBudget (text : List Char) : Utf8ByteBudget.GrowsOn text := by
  intro more _ keep hkeep
  have hle {s t : List Char} (h : s.Sublist t) : Text.byteLength s ≤ Text.byteLength t :=
    (h.map _).sum_le_sum fun _ _ => Nat.zero_le _
  simp only [RouterTokenCounter.cost, Utf8ByteBudget, String.toList_ofList, headTail,
    Text.byteLength_append]
  gcongr
  · exact hle (List.take_prefix_take_left (by omega)).sublist
  · exact hle (List.drop_suffix_drop_left _ (by omega)).sublist

theorem truncate_keepsMost_letters : Utf8ByteBudget.KeepsMost "abcdefghijklmnop".toList 14
    (truncate "abcdefghijklmnop" 14 Utf8ByteBudget).toList :=
  (truncate_keepsMost "abcdefghijklmnop" 14).2.2 (by decide +kernel) (growsOn_utf8ByteBudget _)

/-! ## The input -/

theorem RouterTokenCounter.Frugal.exhausted_le (h : counter.Frugal) (task : String)
    {maxTokens : ℕ} (hmax : 512 ≤ maxTokens) :
    counter.count (threeSections (truncate task (maxTokens - 160) counter)
      "(context budget exhausted)" "[]") ≤ maxTokens := by
  have hsections : threeSections (truncate task (maxTokens - 160) counter)
      "(context budget exhausted)" "[]" =
        "## Task\n" ++ truncate task (maxTokens - 160) counter ++ exhausted := by
    have hassoc : ∀ a b c d e : String, a ++ b ++ c ++ d ++ e = a ++ (b ++ c ++ d ++ e) := by
      intro a b c d e
      rw [String.append_assoc, String.append_assoc, String.append_assoc, String.append_assoc,
        String.append_assoc]
    exact hassoc _ _ _ _ _
  have htask := count_truncate_le h.empty task (maxTokens - 160)
  have hframe := h.frame
  rw [hsections]
  calc counter.count ("## Task\n" ++ truncate task (maxTokens - 160) counter ++ exhausted)
    _ ≤ counter.count "## Task\n" + counter.count (truncate task (maxTokens - 160) counter) +
          counter.count exhausted :=
      Nat.le_trans (h.append _ _) (Nat.add_le_add_right (h.append _ _) _)
    _ ≤ maxTokens := by omega

/-- The loop of `prepare` ends with three sections within the budget. -/
theorem shrinkPrompt_spec (h : counter.Frugal) (task history : String)
    (recent : List RouterEntry) {maxTokens : ℕ} (hmax : 512 ≤ maxTokens) (recentBudget : ℕ) :
    counter.count (shrinkPrompt task history recent maxTokens counter recentBudget) ≤ maxTokens ∧
      ∃ task' history' trajectory, shrinkPrompt task history recent maxTokens counter recentBudget =
        threeSections task' history' trajectory := by
  fun_induction shrinkPrompt task history recent maxTokens counter recentBudget with
  | case1 recentBudget prompt hfits => exact ⟨hfits, _, _, _, rfl⟩
  | case2 recentBudget prompt hfits hsmall => exact ⟨h.exhausted_le task hmax, _, _, _, rfl⟩
  | case3 recentBudget prompt hfits hsmall ih => exact ih

/-- The input is measured and within its budget, and has its three sections in order. -/
structure PreparedRouterContext.WithinBudget (prepared : PreparedRouterContext)
    (counter : RouterTokenCounter) (maxTokens : ℕ) : Prop where
  inputTokens : prepared.inputTokens = counter.count prepared.userPrompt
  budgetTokens : prepared.budgetTokens = max maxTokens 512
  inputTokens_le : prepared.inputTokens ≤ prepared.budgetTokens
  sections : ∃ task history trajectory, prepared.userPrompt = "## Task\n" ++ task ++
    "\n\n## Earlier history summary\n" ++ history ++ "\n\n## Recent trajectory\n" ++ trajectory

/-- With a frugal counter `prepare` is within its budget. -/
theorem RouterTokenCounter.Frugal.prepare (h : counter.Frugal) (s : RouterContextState)
    (recentRounds maxTokens : ℕ) :
    (s.prepare recentRounds maxTokens counter).WithinBudget counter maxTokens := by
  rw [RouterContextState.prepare]
  dsimp only
  split
  · rename_i hfits
    exact ⟨rfl, rfl, hfits, _, _, _, rfl⟩
  · obtain ⟨hle, hsections⟩ := shrinkPrompt_spec h
      (truncate s.taskText (max (max maxTokens 512 / 5) 128) counter)
      (truncate (s.historyText (s.entries.take (s.recentStart recentRounds)))
        (max (max maxTokens 512 / 5) 128) counter)
      (s.entries.drop (s.recentStart recentRounds)) (Nat.le_max_right maxTokens 512) _
    exact ⟨rfl, rfl, hle, hsections⟩

/-- **`prepare` stays within its budget**, in every state, with either counter. That it returns is
part of the definitions: the binary search, the loops of `compact_json` and the halving of the
trajectory's budget are recursions with a measure. -/
theorem prepare_withinBudget (s : RouterContextState) (recentRounds maxTokens : ℕ) :
    (s.prepare recentRounds maxTokens Utf8ByteBudget).WithinBudget Utf8ByteBudget maxTokens ∧
      (s.prepare recentRounds maxTokens EstimatedRouterTokens).WithinBudget
        EstimatedRouterTokens maxTokens :=
  ⟨frugal_utf8ByteBudget.prepare s recentRounds maxTokens,
    frugal_estimatedRouterTokens.prepare s recentRounds maxTokens⟩

end Router

end OpenBitFun
