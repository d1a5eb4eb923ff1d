import OpenBitFun.JsonRender
import OpenBitFun.RouterTokenCacheReturns

/-!
# Calls on the Router's token cache

Calls on a `CachedRouterTokenCounter` run beside each other, one access to its tables at a time. As
long as what the tables hold is right (`TokenCache.Right`), an access of a program that stores only
what is right keeps it so (`step_right`). From this, every run of calls counts as the inner counter
does and keeps the tables within their limits, and `compact_json` answers as it does with the plain
counter as long as callers of `remember_projection` tell the truth (`calls_transparent`). A text that
projections are remembered under is the rendering of one value only, so none is mistaken for
another's.
-/

namespace OpenBitFun

open List

namespace Router

open Json (Value)

/-! ## Tables -/

/-- The counts of a table are right, and within limits. -/
structure RouterMemo.Counted {T : Type} (memo : RouterMemo T) (maxBytes maxEntries : ℕ) : Prop where
  bytes : memo.bytes = (memo.order.map RouterMemo.orderCost).sum
  entries : memo.entries = memo.order.length
  stored : memo.entries = (storedKeys memo.values).length
  bytes_le : memo.bytes ≤ maxBytes
  entries_le : memo.entries ≤ maxEntries

/-- The tables, with limits, count right what they hold, and hold only counts of the inner counter
and projections that fit. -/
structure TokenCache.Right (inner : String → ℕ) (Fits : String → ℕ → Value → Prop)
    (bytes entries : ℕ) (cache : TokenCache) : Prop where
  tokensValid : cache.tokens.Valid
  tokensBytes : cache.tokens.maxBytes = bytes
  tokensEntries : cache.tokens.maxEntries = entries
  projectionsValid : cache.projections.Valid
  projectionsBytes : cache.projections.maxBytes = bytes
  projectionsEntries : cache.projections.maxEntries = min entries 256
  tokens : ∀ text, ∀ n ∈ cache.tokens.get text 0, n = inner text
  projections : ∀ text budget, ∀ value ∈ cache.projections.get text budget, Fits text budget value

theorem RouterMemo.Valid.counted {T : Type} {memo : RouterMemo T} (h : memo.Valid) :
    memo.Counted memo.maxBytes memo.maxEntries where
  bytes := h.bytes
  entries := h.entries
  stored := h.length_storedKeys.symm
  bytes_le := h.bytes_le
  entries_le := h.entries_le

namespace TokenCache

variable {inner : String → ℕ} {Fits : String → ℕ → Value → Prop} {bytes entries : ℕ}
  {cache : TokenCache}

theorem right_withLimits : (withLimits bytes entries).Right inner Fits bytes entries where
  tokensValid := RouterMemo.valid_new bytes entries
  tokensBytes := rfl
  tokensEntries := rfl
  projectionsValid := RouterMemo.valid_new bytes (min entries 256)
  projectionsBytes := rfl
  projectionsEntries := rfl
  tokens _ _ h := absurd h nofun
  projections _ _ _ h := absurd h nofun

/-- One access of a program that stores only what is right. -/
theorem Right.step {α : Type} {P : α → Prop} {program : Program α}
    (h : cache.Right inner Fits bytes entries) (hbytes : bytes < usizeMax)
    (hentries : entries ≤ usizeMax) (hprogram : program.Returns inner Fits P) :
    ∃ program' cache', program.step cache = some (program', cache') ∧
      cache'.Right inner Fits bytes entries ∧ program'.Returns inner Fits P := by
  cases program with
  | done a => exact ⟨_, _, rfl, h, hprogram⟩
  | tokenGet text k => exact ⟨_, _, rfl, h, hprogram _ (h.tokens text)⟩
  | projectionGet text budget k => exact ⟨_, _, rfl, h, hprogram _ (h.projections text budget)⟩
  | tokenInsert text tokens cost k =>
    obtain ⟨rfl, hk⟩ := hprogram
    obtain ⟨memo, hinsert, hvalid, hmaxBytes, hmaxEntries, hget⟩ := RouterMemo.insert_valid h.tokensValid
      (h.tokensBytes.trans_lt hbytes) (h.tokensEntries.trans_le hentries) text 0 (inner text) cost
    refine ⟨k, { cache with tokens := memo }, ?_, ?_, hk⟩
    · rw [Program.step, hinsert, Option.map_some]
    · refine { h with
        tokensValid := hvalid
        tokensBytes := hmaxBytes.trans h.tokensBytes
        tokensEntries := hmaxEntries.trans h.tokensEntries
        tokens := fun text' n hn => ?_ }
      obtain heq | hold := hget text' 0 n hn
      · obtain ⟨rfl, -, rfl⟩ := heq
        rfl
      · exact h.tokens text' n hold
  | projectionInsert text budget value cost k =>
    obtain ⟨hfits, hk⟩ := hprogram
    obtain ⟨memo, hinsert, hvalid, hmaxBytes, hmaxEntries, hget⟩ := RouterMemo.insert_valid h.projectionsValid
      (h.projectionsBytes.trans_lt hbytes)
      ((h.projectionsEntries.trans_le (min_le_left _ _)).trans hentries) text budget value cost
    refine ⟨k, { cache with projections := memo }, ?_, ?_, hk⟩
    · rw [Program.step, hinsert, Option.map_some]
    · refine { h with
        projectionsValid := hvalid
        projectionsBytes := hmaxBytes.trans h.projectionsBytes
        projectionsEntries := hmaxEntries.trans h.projectionsEntries
        projections := fun text' budget' value' hvalue => ?_ }
      obtain heq | hold := hget text' budget' value' hvalue
      · obtain ⟨rfl, rfl, rfl⟩ := heq
        exact hfits
      · exact h.projections text' budget' value' hold

end TokenCache

/-! ## Calls -/

/-- A call on a cached counter, `compact_json` with it included. -/
inductive Call where
  | count (text : String)
  | cachedProjection (text : String) (budget : ℕ)
  | rememberProjection (layout : Layout) (text : String) (budget : ℕ) (value : Value)
  | compactJson (layout : Layout) (value : Value) (proper : value.Proper) (budget : ℕ)

/-- What a call returns. -/
inductive Answer where
  | tokens (n : ℕ)
  | projection (value : Option Value)
  | remembered
  | compacted (value : Value)

namespace Call

/-- The program of a call. -/
def program (inner : String → ℕ) : Call → Program Answer
  | count text => (Cached.count inner text).bind fun n => .done (.tokens n)
  | cachedProjection text budget =>
    (Cached.cachedProjection text budget).bind fun value => .done (.projection value)
  | rememberProjection layout text budget value =>
    (Cached.rememberProjection layout text budget value).bind fun _ => .done .remembered
  | compactJson layout value _ budget =>
    (Cached.compactJson inner layout value budget).bind fun result => .done (.compacted result)

/-- A call that remembers a projection is told one that fits. -/
def Fitting (Fits : String → ℕ → Value → Prop) : Call → Prop
  | rememberProjection _ text budget value => Fits text budget value
  | _ => True

/-- The answer to a call is right. -/
def Answered (inner : String → ℕ) (Fits : String → ℕ → Value → Prop) : Call → Answer → Prop
  | count text, .tokens n => n = inner text
  | cachedProjection text budget, .projection value => ∀ v ∈ value, Fits text budget v
  | rememberProjection _ _ _ _, .remembered => True
  | compactJson _ value _ budget, .compacted result => Fits value.render budget result
  | _, _ => False

end Call

/-- A cached counter, and the calls that were made on it with what is left of their programs. -/
structure CachedCounter where
  cache : TokenCache
  calls : List (Call × Program Answer)

/-- What can happen to a cached counter: a call begins, or one makes its next access. -/
inductive Action where
  | begin (call : Call)
  | access (index : ℕ)

namespace CachedCounter

/-- `with_limits`. -/
def withLimits (bytes entries : ℕ) : CachedCounter where
  cache := .withLimits bytes entries
  calls := []

/-- What an action does. There is nothing it could do where a count leaves `usize`. -/
def act (inner : String → ℕ) (counter : CachedCounter) : Action → Option CachedCounter
  | .begin call => some { counter with calls := counter.calls ++ [(call, call.program inner)] }
  | .access index =>
    match counter.calls[index]? with
    | none => some counter
    | some (call, program) =>
      (program.step counter.cache).map fun (program, cache) =>
        { cache := cache, calls := counter.calls.set index (call, program) }

/-- A run. -/
def run (inner : String → ℕ) : List Action → CachedCounter → Option CachedCounter
  | [], counter => some counter
  | action :: actions, counter => (counter.act inner action).bind (run inner actions)

/-- A call has returned something. -/
def Returned (counter : CachedCounter) (index : ℕ) (call : Call) (answer : Answer) : Prop :=
  counter.calls[index]? = some (call, .done answer)

end CachedCounter

/-! ## What calls answer -/

section

variable {inner : String → ℕ} {Fits : String → ℕ → Value → Prop}

theorem returns_cachedProjection (text : String) (budget : ℕ) :
    (Cached.cachedProjection text budget).Returns inner Fits
      (fun value => ∀ v ∈ value, Fits text budget v) := by
  unfold Cached.cachedProjection
  split
  · exact fun value hvalue => hvalue
  · exact fun v hv => absurd hv nofun

theorem returns_rememberProjection (layout : Layout) {text : String} {budget : ℕ} {value : Value}
    (h : Fits text budget value) :
    (Cached.rememberProjection layout text budget value).Returns inner Fits fun _ => True := by
  unfold Cached.rememberProjection
  split
  · exact ⟨h, trivial⟩
  · exact trivial

/-- `compact_json` returns what fits: a projection that was remembered, or the plain one. -/
theorem returns_compactJson (layout : Layout) (value : Value) {budget : ℕ}
    (h : Fits value.render budget (compactJson value budget (plain inner))) :
    (Cached.compactJson inner layout value budget).Returns inner Fits
      (Fits value.render budget) := by
  apply (returns_cachedProjection value.render budget).bind
  rintro (_ | cached) hcached
  · apply (Cached.returns_compactJsonUncached inner Fits value value.render budget).bind_eq
    apply (returns_rememberProjection layout h).bind
    exact fun _ _ => h
  · exact hcached cached rfl

theorem Call.returns_program
    (hfits : ∀ value budget, value.Proper →
      Fits value.render budget (Router.compactJson value budget (plain inner)))
    {call : Call} (hcall : call.Fitting Fits) :
    (call.program inner).Returns inner Fits (call.Answered inner Fits) := by
  cases call with
  | count text =>
    apply (Cached.returns_count inner Fits text).bind
    exact fun n hn => hn
  | cachedProjection text budget =>
    apply (returns_cachedProjection text budget).bind
    exact fun value hvalue => hvalue
  | rememberProjection layout text budget value =>
    apply (returns_rememberProjection layout hcall).bind
    exact fun _ _ => trivial
  | compactJson layout value proper budget =>
    apply (returns_compactJson layout value (hfits value budget proper)).bind
    exact fun result hresult => hresult

end

/-! ## Runs -/

namespace CachedCounter

variable {inner : String → ℕ} {Fits : String → ℕ → Value → Prop} {bytes entries : ℕ}
  {counter : CachedCounter}

/-- The tables are right, and every call goes on to a right answer as long as they are. -/
structure Right (inner : String → ℕ) (Fits : String → ℕ → Value → Prop) (bytes entries : ℕ)
    (counter : CachedCounter) : Prop where
  cache : counter.cache.Right inner Fits bytes entries
  calls : ∀ call ∈ counter.calls, call.2.Returns inner Fits (call.1.Answered inner Fits)

/-- Every action that begins a call begins one that fits. -/
def Begins (P : Call → Prop) (action : Action) : Prop := ∀ call, action = .begin call → P call

theorem right_withLimits : (withLimits bytes entries).Right inner Fits bytes entries where
  cache := TokenCache.right_withLimits
  calls _ hcall := absurd hcall not_mem_nil

theorem Right.act (h : counter.Right inner Fits bytes entries) (hbytes : bytes < usizeMax)
    (hentries : entries ≤ usizeMax)
    (hfits : ∀ value budget, value.Proper →
      Fits value.render budget (Router.compactJson value budget (plain inner)))
    {action : Action} (haction : Begins (Call.Fitting Fits) action) :
    ∃ counter', counter.act inner action = some counter' ∧
      counter'.Right inner Fits bytes entries := by
  cases action with
  | begin call =>
    refine ⟨_, rfl, h.cache, fun call' hmem => ?_⟩
    obtain hmem | hmem := mem_append.1 hmem
    · exact h.calls call' hmem
    · rw [mem_singleton.1 hmem]
      exact Call.returns_program hfits (haction call rfl)
  | access index =>
    simp only [CachedCounter.act]
    split
    · exact ⟨counter, rfl, h⟩
    · rename_i call program hcall
      obtain ⟨program', cache', hstep, hcache, hprogram⟩ :=
        h.cache.step hbytes hentries (h.calls _ (mem_of_getElem? hcall))
      rw [hstep, Option.map_some]
      refine ⟨_, rfl, hcache, fun call' hmem => ?_⟩
      obtain hmem | rfl := mem_or_eq_of_mem_set hmem
      · exact h.calls call' hmem
      · exact hprogram

theorem Right.run (hbytes : bytes < usizeMax) (hentries : entries ≤ usizeMax)
    (hfits : ∀ value budget, value.Proper →
      Fits value.render budget (Router.compactJson value budget (plain inner)))
    {actions : List Action} (hactions : ∀ action ∈ actions, Begins (Call.Fitting Fits) action)
    (h : counter.Right inner Fits bytes entries) :
    ∃ counter', CachedCounter.run inner actions counter = some counter' ∧
      counter'.Right inner Fits bytes entries := by
  induction actions generalizing counter with
  | nil => exact ⟨counter, rfl, h⟩
  | cons action actions ih =>
    rw [forall_mem_cons] at hactions
    obtain ⟨counter', hact, h'⟩ := h.act hbytes hentries hfits hactions.1
    obtain ⟨counter'', hrun, h''⟩ := ih hactions.2 h'
    refine ⟨counter'', ?_, h''⟩
    rw [CachedCounter.run, hact, Option.bind_some, hrun]

theorem run_append (actions more : List Action) (counter : CachedCounter) :
    run inner (actions ++ more) counter = (run inner actions counter).bind (run inner more) := by
  induction actions generalizing counter with
  | nil => rfl
  | cons action actions ih =>
    rw [cons_append, run, run, Option.bind_assoc]
    congr 1
    funext counter'
    exact ih counter'

theorem act_of_run {schedule : ℕ → Action} {t : ℕ} {last next : CachedCounter}
    (hlast : run inner ((List.range t).map schedule) counter = some last)
    (hnext : run inner ((List.range (t + 1)).map schedule) counter = some next) :
    last.act inner (schedule t) = some next := by
  rw [range_succ, map_append, run_append, hlast, Option.bind_some] at hnext
  obtain ⟨next', hact, hdone⟩ := Option.bind_eq_some_iff.1 hnext
  obtain rfl := Option.some.inj hdone
  exact hact

/-- An access takes the program of its call one step on. -/
theorem calls_access {counter' : CachedCounter} {index : ℕ} {call : Call}
    {program : Program Answer} (hact : counter.act inner (.access index) = some counter')
    (hcall : counter.calls[index]? = some (call, program)) :
    ∃ program' cache', program.step counter.cache = some (program', cache') ∧
      counter'.calls[index]? = some (call, program') := by
  simp only [act, hcall, Option.map_eq_some_iff, Prod.exists] at hact
  obtain ⟨program', cache', hstep, rfl⟩ := hact
  refine ⟨program', cache', hstep, ?_⟩
  obtain ⟨hlt, -⟩ := List.getElem?_eq_some_iff.1 hcall
  exact List.getElem?_set_self hlt

/-- Other actions leave the program of a call alone. -/
theorem calls_act {action : Action} {counter' : CachedCounter} {index : ℕ}
    {call : Call × Program Answer} (hact : counter.act inner action = some counter')
    (haction : action ≠ .access index) (hcall : counter.calls[index]? = some call) :
    counter'.calls[index]? = some call := by
  cases action with
  | begin call' =>
    obtain rfl := Option.some.inj hact
    obtain ⟨hlt, -⟩ := List.getElem?_eq_some_iff.1 hcall
    exact (List.getElem?_append_left hlt).trans hcall
  | access index' =>
    have hne : index' ≠ index := fun h => haction (h ▸ rfl)
    simp only [act] at hact
    split at hact
    · obtain rfl := Option.some.inj hact
      exact hcall
    · obtain ⟨-, -, rfl⟩ := Option.map_eq_some_iff.1 hact
      exact (getElem?_set_ne hne).trans hcall

/-- The program of a call is the same until its next access. -/
theorem next_access {schedule : ℕ → Action} {states : ℕ → CachedCounter} {index : ℕ} {call : Call}
    {program : Program Answer}
    (hact : ∀ t, (states t).act inner (schedule t) = some (states (t + 1))) {wait t : ℕ}
    (hschedule : schedule (t + wait) = .access index)
    (hcall : (states t).calls[index]? = some (call, program)) :
    ∃ t' program' cache', program.step (states t').cache = some (program', cache') ∧
      (states (t' + 1)).calls[index]? = some (call, program') := by
  have haccess : schedule t = .access index →
      ∃ t' program' cache', program.step (states t').cache = some (program', cache') ∧
        (states (t' + 1)).calls[index]? = some (call, program') := by
    intro hnow
    have hstep := hact t
    rw [hnow] at hstep
    exact ⟨t, calls_access hstep hcall⟩
  induction wait generalizing t with
  | zero => exact haccess hschedule
  | succ wait ih =>
    by_cases hnow : schedule t = .access index
    · exact haccess hnow
    · have hcall' := calls_act (hact t) hnow hcall
      rw [Nat.add_comm wait, ← Nat.add_assoc] at hschedule
      refine ih hschedule hcall' fun hnow' => ?_
      have hstep := hact (t + 1)
      rw [hnow'] at hstep
      exact ⟨t + 1, calls_access hstep hcall'⟩

/-- A call that is let make access after access returns. -/
theorem returned_of_often {schedule : ℕ → Action} {states : ℕ → CachedCounter} {index : ℕ}
    {call : Call} (hact : ∀ t, (states t).act inner (schedule t) = some (states (t + 1)))
    (hoften : ∀ t, ∃ t' ≥ t, schedule t' = .access index) (program : Program Answer) :
    ∀ t, (states t).calls[index]? = some (call, program) →
      ∃ t' answer, (states t').Returned index call answer := by
  have hnext : ∀ {program : Program Answer} (t : ℕ),
      (states t).calls[index]? = some (call, program) →
        ∃ t' program' cache', program.step (states t').cache = some (program', cache') ∧
          (states (t' + 1)).calls[index]? = some (call, program') := by
    intro program t hcall
    obtain ⟨t', ht', hschedule⟩ := hoften t
    obtain ⟨wait, rfl⟩ := Nat.exists_eq_add_of_le ht'
    exact next_access hact hschedule hcall
  -- Each access leaves less of the program.
  induction program with
  | done answer => exact fun t hcall => ⟨t, answer, hcall⟩
  | tokenGet text k ih =>
    intro t hcall
    obtain ⟨t', program', cache', hstep, hcall'⟩ := hnext t hcall
    obtain ⟨rfl, -⟩ := Prod.mk.inj (Option.some.inj hstep)
    exact ih _ _ hcall'
  | projectionGet text budget k ih =>
    intro t hcall
    obtain ⟨t', program', cache', hstep, hcall'⟩ := hnext t hcall
    obtain ⟨rfl, -⟩ := Prod.mk.inj (Option.some.inj hstep)
    exact ih _ _ hcall'
  | tokenInsert text tokens cost k ih =>
    intro t hcall
    obtain ⟨t', program', cache', hstep, hcall'⟩ := hnext t hcall
    obtain ⟨memo, -, heq⟩ := Option.map_eq_some_iff.1 hstep
    obtain ⟨rfl, -⟩ := Prod.mk.inj heq
    exact ih _ hcall'
  | projectionInsert text budget value cost k ih =>
    intro t hcall
    obtain ⟨t', program', cache', hstep, hcall'⟩ := hnext t hcall
    obtain ⟨memo, -, heq⟩ := Option.map_eq_some_iff.1 hstep
    obtain ⟨rfl, -⟩ := Prod.mk.inj heq
    exact ih _ hcall'

/-- A value is the projection that `compact_json` makes with the plain counter of whatever value is
rendered as the text. -/
def Projection (inner : String → ℕ) (text : String) (budget : ℕ) (projection : Value) : Prop :=
  ∀ value : Value, value.Proper → value.render = text →
    projection = Router.compactJson value budget (plain inner)

theorem projection_compactJson (value : Value) (budget : ℕ) (hvalue : value.Proper) :
    Projection inner value.render budget (Router.compactJson value budget (plain inner)) := by
  intro value' hvalue' hrender
  rw [Json.render_injective hvalue' hvalue hrender]

/-- The answer to a call that has returned is right. -/
theorem Right.answered (h : counter.Right inner Fits bytes entries) {index : ℕ} {call : Call}
    {answer : Answer} (hcall : counter.Returned index call answer) :
    call.Answered inner Fits answer :=
  h.calls _ (mem_of_getElem? hcall)

/-- A `CachedRouterTokenCounter` with a byte limit that is not the largest `usize`, whatever calls
are made on it and however their accesses to its tables are interleaved: no count leaves `usize`,
both tables count right and stay within their limits, calls return once they are let make their
accesses, and `count` returns the count of the inner counter. If every call of `remember_projection`
tells it a projection made with the plain counter, `compact_json` returns what it returns with the
plain counter. -/
theorem calls_transparent (inner : String → ℕ) {bytes entries : ℕ} (hbytes : bytes < usizeMax)
    (hentries : entries ≤ usizeMax) (schedule : ℕ → Action) :
    ∃ states : ℕ → CachedCounter,
      (∀ t, run inner ((List.range t).map schedule) (withLimits bytes entries) =
        some (states t)) ∧
      (∀ t, (states t).cache.tokens.Counted bytes entries ∧
        (states t).cache.projections.Counted bytes (min entries 256)) ∧
      (∀ t index call program, (states t).calls[index]? = some (call, program) →
        (∀ t, ∃ t' ≥ t, schedule t' = .access index) →
          ∃ t' answer, (states t').Returned index call answer) ∧
      (∀ t index text answer, (states t).Returned index (.count text) answer →
        answer = .tokens (inner text)) ∧
      ((∀ t, Begins (Call.Fitting (Projection inner)) (schedule t)) →
        ∀ t index layout value proper budget answer,
          (states t).Returned index (.compactJson layout value proper budget) answer →
            answer = .compacted (Router.compactJson value budget (plain inner))) := by
  -- Whatever projections are told, the tables are right about everything else.
  have hany : ∀ t, ∃ counter,
      run inner ((List.range t).map schedule) (withLimits bytes entries) = some counter ∧
        counter.Right inner (fun _ _ _ => True) bytes entries := by
    intro t
    apply right_withLimits.run hbytes hentries fun _ _ _ => trivial
    rintro action - call -
    cases call <;> trivial
  choose states hstates hright using hany
  have hact : ∀ t, (states t).act inner (schedule t) = some (states (t + 1)) :=
    fun t => act_of_run (hstates t) (hstates (t + 1))
  refine ⟨states, hstates, fun t => ?_, fun t index call program hcall hoften => ?_,
    fun t index text answer hreturned => ?_, fun htold t index layout value proper budget answer
      hreturned => ?_⟩
  · have hcache := (hright t).cache
    have htokens := hcache.tokensValid.counted
    have hprojections := hcache.projectionsValid.counted
    rw [hcache.tokensBytes, hcache.tokensEntries] at htokens
    rw [hcache.projectionsBytes, hcache.projectionsEntries] at hprojections
    exact ⟨htokens, hprojections⟩
  · exact returned_of_often hact hoften program t hcall
  · have hanswered := (hright t).answered hreturned
    cases answer with
    | tokens n => exact congrArg Answer.tokens hanswered
    | projection value => exact hanswered.elim
    | remembered => exact hanswered.elim
    | compacted value => exact hanswered.elim
  · obtain ⟨counter, hrun, hcounter⟩ := right_withLimits.run hbytes hentries
      (fun value budget hvalue => projection_compactJson value budget hvalue)
      (forall_mem_map.2 fun t _ => htold t)
    obtain rfl := Option.some.inj (hrun.symm.trans (hstates t))
    have hanswered := hcounter.answered hreturned
    cases answer with
    | tokens n => exact hanswered.elim
    | projection value => exact hanswered.elim
    | remembered => exact hanswered.elim
    | compacted result => exact congrArg Answer.compacted (hanswered value proper rfl)

theorem calls_transparent_null :
    ∃ states : ℕ → CachedCounter,
      run (fun _ => 1) [.begin (.compactJson ⟨32, fun _ => 0⟩ .null .null 10), .access 0, .access 0]
        (withLimits 4194304 4096) = some (states 3) ∧
      (states 3).cache.tokens.Counted 4194304 4096 ∧
      ¬(states 3).Returned 0 (.compactJson ⟨32, fun _ => 0⟩ .null .null 10)
        (.compacted (.bool true)) := by
  have hlimit : 4194304 < usizeMax := by decide
  have hentries : 4096 ≤ usizeMax := by decide
  obtain ⟨states, hrun, hcounted, -, -, hcompact⟩ := calls_transparent (fun _ => 1) hlimit hentries
    fun t => if t = 0 then .begin (.compactJson ⟨32, fun _ => 0⟩ .null .null 10) else .access 0
  have htold : ∀ t, Begins (Call.Fitting (Projection fun _ => 1))
      (if t = 0 then .begin (.compactJson ⟨32, fun _ => 0⟩ .null .null 10) else .access 0) := by
    rintro t call hbegin
    split at hbegin
    · obtain rfl := Action.begin.inj hbegin
      trivial
    · exact absurd hbegin nofun
  refine ⟨states, hrun 3, (hcounted 3).1, fun hreturned => ?_⟩
  exact absurd (hcompact htold 3 0 _ _ _ _ _ hreturned) nofun

/-- A table of projections believes what it is told, so `compact_json` returns a value that was
remembered for `null` by another caller. With the largest `usize` for a byte limit, two strings of the
largest capacity cost more than `usize` can count. -/
theorem not_calls_transparent :
    (run (fun _ => 1)
        [.begin (.rememberProjection ⟨32, fun _ => 0⟩ "null" 10 (.bool true)), .access 0,
          .begin (.compactJson ⟨32, fun _ => 0⟩ .null .null 10), .access 1]
        (withLimits 4194304 4096)).bind (fun counter => counter.calls[1]?) =
      some (.compactJson ⟨32, fun _ => 0⟩ .null .null 10, .done (.compacted (.bool true))) ∧
    Router.compactJson .null 10 (plain fun _ => 1) = .null ∧
    run (fun _ => 1)
        [.begin (.rememberProjection ⟨32, fun _ => 2 ^ 63 - 1⟩ "a" 0 (.string "")), .access 0,
          .begin (.rememberProjection ⟨32, fun _ => 2 ^ 63 - 1⟩ "b" 0 (.string "")), .access 1]
        (withLimits usizeMax 8) = none := by
  refine ⟨?_, rfl, ?_⟩
  all_goals with_unfolding_all rfl

end CachedCounter

end Router

end OpenBitFun
