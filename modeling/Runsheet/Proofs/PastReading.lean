import Runsheet.Expression.Eval
import Runsheet.Template.Render

/-!
# Problems of reading

Two problems can only be found while a text is read: that it is malformed, and that an escape in it is bad.
What has been read and is evaluated or rendered never has one of them, whatever the setting, the variables
and the values are.

* `PastReading` — a computation does not end with a problem of reading, with the rules for its parts;
* `filters_pastReading`, `checks_pastReading`, `functions_pastReading` — what expressions can call;
* `Expr.eval_pastReading` — the evaluation of expressions;
* `Template.render_pastReading` — the rendering of templates.
-/

namespace Runsheet.Expression

/-- Is a problem one that is found while reading? -/
@[simp] def Problem.ofReading : Problem → Bool
  | .malformed | .badEscape => true
  | _ => false

/-- **A computation is past reading** if no problem that it ends with is one of reading. -/
def PastReading {α : Type} (x : Except Problem α) : Prop :=
  ∀ problem, x = .error problem → problem.ofReading = false

section

variable {α β σ : Type}

/-! ### Rules -/

namespace PastReading

@[simp] theorem ok (a : α) : PastReading (.ok a) :=
  fun _ h => by cases h

@[simp] theorem pure (a : α) : PastReading (Pure.pure a) :=
  ok a

@[simp] theorem error_iff {problem : Problem} :
    PastReading (.error problem : Except Problem α) ↔ problem.ofReading = false :=
  ⟨fun h => h problem rfl, fun h _ heq => by cases heq; exact h⟩

@[simp] theorem throw_iff {problem : Problem} :
    PastReading (throw problem : Except Problem α) ↔ problem.ofReading = false :=
  error_iff

/-- A computation in two steps is past reading if both of them are. -/
theorem bind {x : Except Problem α} {k : α → Except Problem β} (hx : PastReading x)
    (hk : ∀ a, PastReading (k a)) : PastReading (x >>= k) := by
  cases x with
  | error problem => exact error_iff.mpr (error_iff.mp hx)
  | ok a => exact hk a

theorem map {x : Except Problem α} (hx : PastReading x) (f : α → β) :
    PastReading (f <$> x) := by
  cases x with
  | error problem => exact error_iff.mpr (error_iff.mp hx)
  | ok a => exact ok (f a)

end PastReading

/-- **A computation with a state is past reading** if it is so from every state. -/
def AlwaysPastReading (m : StateT σ (Except Problem) α) : Prop :=
  ∀ state, PastReading (m.run state)

namespace AlwaysPastReading

@[simp] theorem pure (a : α) : AlwaysPastReading (Pure.pure a : StateT σ (Except Problem) α) :=
  fun _ => PastReading.ok _

theorem throw {problem : Problem} (h : problem.ofReading = false) :
    AlwaysPastReading (throw problem : StateT σ (Except Problem) α) :=
  fun _ => PastReading.error_iff.mpr h

@[simp] theorem get : AlwaysPastReading (MonadState.get : StateT σ (Except Problem) σ) :=
  fun _ => PastReading.ok _

@[simp] theorem set (state : σ) :
    AlwaysPastReading (MonadStateOf.set state : StateT σ (Except Problem) PUnit) :=
  fun _ => PastReading.ok _

@[simp] theorem modify (f : σ → σ) :
    AlwaysPastReading (modify f : StateT σ (Except Problem) PUnit) :=
  fun _ => PastReading.ok _

theorem lift {x : Except Problem α} (hx : PastReading x) :
    AlwaysPastReading (liftM x : StateT σ (Except Problem) α) :=
  fun _ => hx.bind fun _ => PastReading.ok _

theorem bind {m : StateT σ (Except Problem) α} {k : α → StateT σ (Except Problem) β}
    (hm : AlwaysPastReading m) (hk : ∀ a, AlwaysPastReading (k a)) :
    AlwaysPastReading (m >>= k) :=
  fun state => (hm state).bind fun next => hk next.1 next.2

theorem map {m : StateT σ (Except Problem) α} (hm : AlwaysPastReading m) (f : α → β) :
    AlwaysPastReading (f <$> m) :=
  fun state => (hm state).bind fun _ => PastReading.ok _

end AlwaysPastReading

end

/-! ### Values -/

namespace Setting

variable (s : Setting) (v : Value)

@[simp] theorem use_pastReading : PastReading (s.use v) := by
  unfold use
  split
  · split <;> simp
  · simp

@[simp] theorem isTrue_pastReading : PastReading (s.isTrue v) :=
  .bind (s.use_pastReading v) fun _ => .pure _

@[simp] theorem shown_pastReading : PastReading (s.shown v) :=
  .bind (s.use_pastReading v) fun _ => .pure _

@[simp] theorem items_pastReading : PastReading (s.items v) := by
  refine .bind (s.use_pastReading v) fun used => ?_
  cases used <;> simp

@[simp] theorem asList_pastReading : PastReading (s.asList v) := by
  unfold asList
  split <;> simp

end Setting

namespace Value

variable (a b : Value)

@[simp] theorem exact_pastReading (n : Int) : PastReading (exact n) := by
  unfold exact
  split <;> simp

theorem arithmetic_pastReading {ints : Int → Int → Result} (hints : ∀ m n, PastReading (ints m n))
    (floats : Binary64 → Binary64 → Binary64) : PastReading (arithmetic ints floats a b) := by
  unfold arithmetic
  split <;> simp [hints]

@[simp] theorem repeatBy_pastReading : PastReading (repeatBy a b) := by
  unfold repeatBy
  split
  · split <;> simp
  · split <;> simp
  · split <;> simp
  · simp

theorem add_pastReading : PastReading (add a b) := by
  unfold add
  split
  · simp
  split
  · simp
  · exact arithmetic_pastReading _ _ (fun m n => exact_pastReading (m + n)) _

theorem multiply_pastReading : PastReading (multiply a b) := by
  unfold multiply
  split
  iterate 6 simp
  exact arithmetic_pastReading _ _ (fun m n => exact_pastReading (m * n)) _

theorem divide_pastReading : PastReading (divide a b) := by
  unfold divide
  split <;> simp

theorem floorDivide_pastReading : PastReading (floorDivide a b) := by
  refine arithmetic_pastReading _ _ (fun m n => ?_) _
  split <;> simp

theorem modulo_pastReading : PastReading (modulo a b) := by
  refine arithmetic_pastReading _ _ (fun m n => ?_) _
  split <;> simp

theorem powerInt_pastReading (m n : Int) : PastReading (powerInt m n) := by
  unfold powerInt
  split
  · simp
  · split
    · simp
    · split <;> simp

@[simp] theorem negate_pastReading : PastReading a.negate := by
  unfold negate
  split
  · split
    · simp
    · split <;> simp
  · simp
  · simp

@[simp] theorem holds_pastReading : PastReading (a.holds b) := by
  unfold holds
  split <;> simp

@[simp] theorem member_pastReading (name : String) : PastReading (a.member name) := by
  unfold member
  split <;> simp

@[simp] theorem item_pastReading : PastReading (a.item b) := by
  unfold item
  split <;> simp

@[simp] theorem bound_pastReading (v : Option Value) : PastReading (bound v) := by
  unfold bound
  split
  · simp
  · simp
  · split
    · split <;> simp
    · simp

@[simp] theorem slice_pastReading (start stop step : Option Value) :
    PastReading (a.slice start stop step) := by
  refine .bind (bound_pastReading start) fun start => ?_
  refine .bind (bound_pastReading stop) fun stop => ?_
  refine .bind (bound_pastReading step) fun step => ?_
  dsimp only
  split
  · refine .bind (PastReading.throw_iff.mpr rfl) fun _ => ?_
    cases a <;> simp
  · cases a <;> simp

end Value

@[simp] theorem BinaryOp.apply_pastReading (op : BinaryOp) (a b : Value) :
    PastReading (op.apply a b) := by
  cases op with
  | add => exact Value.add_pastReading a b
  | subtract => exact Value.arithmetic_pastReading a b (fun m n => Value.exact_pastReading (m - n)) _
  | multiply => exact Value.multiply_pastReading a b
  | divide => exact Value.divide_pastReading a b
  | floorDivide => exact Value.floorDivide_pastReading a b
  | modulo => exact Value.modulo_pastReading a b
  | power => exact Value.arithmetic_pastReading a b Value.powerInt_pastReading _
  | join => exact PastReading.ok _

@[simp] theorem BinaryOp.applyIn_pastReading (s : Setting) (op : BinaryOp) (a b : Value) :
    PastReading (op.applyIn s a b) := by
  unfold BinaryOp.applyIn
  split
  · refine .bind (s.use_pastReading a) fun a => .bind (s.use_pastReading b) fun b => ?_
    exact op.apply_pastReading a b
  · exact op.apply_pastReading a b

@[simp] theorem CompareOp.apply_pastReading (op : CompareOp) (a b : Value) :
    PastReading (op.apply a b) := by
  cases op with
  | isNotIn => exact .bind (Value.holds_pastReading b a) fun _ => .pure _
  | _ => simp [CompareOp.apply]

/-! ### Arguments -/

namespace Taking

variable {α : Type} (s : Setting)

@[simp] theorem given?_pastReading : AlwaysPastReading given? := by
  refine .bind .get fun args => ?_
  cases args with
  | nil => exact .pure _
  | cons v rest => exact .bind (.set rest) fun _ => .pure _

@[simp] theorem value_pastReading : AlwaysPastReading value := by
  refine .bind given?_pastReading fun given => ?_
  cases given with
  | none => exact .throw rfl
  | some v => exact .pure v

@[simp] theorem value?_pastReading : AlwaysPastReading value? := by
  refine .bind given?_pastReading fun given => ?_
  cases given <;> simp

@[simp] theorem text_pastReading : AlwaysPastReading (text s) :=
  .bind value_pastReading fun v => .lift (s.shown_pastReading v)

@[simp] theorem text?_pastReading : AlwaysPastReading text? :=
  .bind value?_pastReading fun _ => .pure _

@[simp] theorem integerWithin_pastReading (low high : Int) (v : Value) :
    PastReading (integerWithin low high v) := by
  unfold integerWithin
  split
  · split <;> simp
  · simp

@[simp] theorem integer_pastReading (low high : Int) : AlwaysPastReading (integer low high) :=
  .bind value_pastReading fun v => .lift (integerWithin_pastReading low high v)

@[simp] theorem integer?_pastReading (low high : Int) : AlwaysPastReading (integer? low high) := by
  refine .bind value?_pastReading fun given => ?_
  cases given with
  | none => simp
  | some v => exact .map (.lift (integerWithin_pastReading low high v)) some

@[simp] theorem boolean_pastReading (v : Value) : PastReading (boolean v) := by
  unfold boolean
  split <;> simp

@[simp] theorem boolean?_pastReading : AlwaysPastReading boolean? := by
  refine .bind value?_pastReading fun given => ?_
  cases given with
  | none => simp
  | some v => exact .map (.lift (boolean_pastReading v)) some

/-- What is taken from all arguments is past reading if it is from any. -/
@[simp] theorem run_pastReading {taking : Taking α} (h : AlwaysPastReading taking)
    (args : List Value) : PastReading (taking.run args) := by
  refine .bind (h args) fun taken => ?_
  dsimp only
  split <;> simp

end Taking

/-! ### What expressions can call -/

namespace Filter

variable (s : Setting) (args : Arguments)

theorem onText_pastReading (f : List Char → List Char) : PastReading (onText f s args) :=
  .bind (Taking.run_pastReading (Taking.text_pastReading s) _) fun _ => .pure _

theorem onValue_pastReading {f : Setting → Value → Value.Result}
    (hf : ∀ v, PastReading (f s v)) : PastReading (onValue f s args) :=
  .bind (Taking.run_pastReading Taking.value_pastReading _) hf

theorem trim_pastReading : PastReading (trim s args) := by
  refine Taking.run_pastReading ?_ _
  exact .bind (Taking.text_pastReading s) fun _ => .bind Taking.text?_pastReading fun _ => .pure _

theorem replace_pastReading : PastReading (replace s args) := by
  refine Taking.run_pastReading ?_ _
  refine .bind (Taking.text_pastReading s) fun _ => .bind (Taking.text_pastReading s) fun _ => ?_
  exact .bind (Taking.text_pastReading s) fun _ => .pure _

theorem length_pastReading : PastReading (length s args) := by
  refine onValue_pastReading s args fun v => ?_
  split <;> simp

theorem join_pastReading : PastReading (join s args) := by
  refine Taking.run_pastReading ?_ _
  refine .bind Taking.value_pastReading fun v => .bind Taking.text?_pastReading fun _ => ?_
  exact .bind (.lift (s.asList_pastReading v)) fun _ => .pure _

theorem first_pastReading : PastReading (first s args) := by
  refine onValue_pastReading s args fun v => ?_
  cases v with
  | string | list | map | iterable => exact .bind (s.items_pastReading _) fun _ => .pure _
  | _ => simp

theorem last_pastReading : PastReading (last s args) := by
  refine onValue_pastReading s args fun v => ?_
  cases v with
  | string | list | iterable => exact .bind (s.items_pastReading _) fun _ => .pure _
  | _ => simp

theorem reverse_pastReading : PastReading (reverse s args) :=
  onValue_pastReading s args fun v => by cases v <;> simp

@[simp] theorem namedWithin_pastReading (names : List String) :
    PastReading (namedWithin names args) := by
  unfold namedWithin
  split <;> simp

@[simp] theorem namedBoolean_pastReading (name : String) :
    PastReading (namedBoolean name args) := by
  unfold namedBoolean
  split <;> simp

@[simp] theorem namedString?_pastReading (name : String) :
    PastReading (namedString? name args) := by
  unfold namedString?
  split <;> simp

theorem sort_pastReading : PastReading (sort s args) := by
  refine .bind (Taking.run_pastReading Taking.value_pastReading _) fun v => ?_
  refine .bind (s.asList_pastReading v) fun items => ?_
  refine .bind (namedBoolean_pastReading args _) fun caseCounts => ?_
  refine .bind (namedString?_pastReading args _) fun path => ?_
  refine .bind (namedBoolean_pastReading args _) fun backwards => ?_
  exact .bind (namedWithin_pastReading args _) fun _ => .pure _

theorem unique_pastReading : PastReading (unique s args) := by
  refine .bind (Taking.run_pastReading Taking.value_pastReading _) fun v => ?_
  refine .bind (namedString?_pastReading args _) fun path => ?_
  refine .bind (namedBoolean_pastReading args _) fun caseCounts => ?_
  refine .bind (namedWithin_pastReading args _) fun _ => ?_
  exact .bind (s.items_pastReading v) fun _ => .pure _

theorem extreme_pastReading (replaces : Ordering → Bool) :
    PastReading (extreme replaces s args) := by
  refine onValue_pastReading s args fun v => .bind (s.asList_pastReading v) fun items => ?_
  cases items <;> simp

theorem sum_pastReading : PastReading (sum s args) := by
  refine onValue_pastReading s args fun v => .bind (s.items_pastReading v) fun items => ?_
  generalize Value.int 0 = total
  induction items generalizing total with
  | nil => exact .ok total
  | cons item rest ih =>
    rw [List.foldlM_cons]
    refine .bind ?_ ih
    cases item <;> simp [Value.add_pastReading]

theorem list_pastReading : PastReading (list s args) :=
  onValue_pastReading s args fun v => .bind (s.asList_pastReading v) fun _ => .pure _

theorem default_pastReading : PastReading (default s args) := by
  refine Taking.run_pastReading ?_ _
  refine .bind Taking.value_pastReading fun v => .bind Taking.value?_pastReading fun other => ?_
  refine .bind Taking.boolean?_pastReading fun lax => ?_
  split <;> simp

theorem int_pastReading : PastReading (int s args) := by
  refine onValue_pastReading s args fun v => ?_
  cases v with
  | string text =>
    dsimp only
    split
    · simp
    · split <;> simp
  | _ => simp

theorem float_pastReading : PastReading (float s args) := by
  refine onValue_pastReading s args fun v => ?_
  split
  · simp
  · simp
  · split <;> simp
  · split <;> simp

theorem abs_pastReading : PastReading (abs s args) := by
  refine onValue_pastReading s args fun v => ?_
  split
  · split <;> simp
  · simp
  · simp

theorem round_pastReading : PastReading (round s args) := by
  refine Taking.run_pastReading ?_ _
  refine .bind Taking.value_pastReading fun v => ?_
  refine .bind (Taking.integer?_pastReading _ _) fun places => ?_
  split
  · exact .pure _
  · exact .pure _
  · exact .throw rfl

theorem split_pastReading : PastReading (split s args) := by
  refine Taking.run_pastReading ?_ _
  refine .bind (Taking.text_pastReading s) fun _ => .bind Taking.text?_pastReading fun _ => ?_
  exact .bind (Taking.integer?_pastReading _ _) fun _ => .pure _

theorem encode_pastReading : PastReading (encode s args) :=
  .bind (Taking.run_pastReading (Taking.text_pastReading s) _) fun _ => .pure _

theorem decode_pastReading : PastReading (decode s args) := by
  refine .bind (Taking.run_pastReading (Taking.text_pastReading s) _) fun text => ?_
  split <;> simp

end Filter

/-- **Filters** have no problem of reading. -/
theorem filters_pastReading : ∀ entry ∈ filters, ∀ s args, PastReading (entry.2 s args) := by
  have htext (f : List Char → List Char) (s : Setting) (args : Arguments) :=
    Filter.onText_pastReading s args f
  have hextreme (replaces : Ordering → Bool) (s : Setting) (args : Arguments) :=
    Filter.extreme_pastReading s args replaces
  have hvalue (f : Value → Value) (s : Setting) (args : Arguments) :
      PastReading (Filter.onValue (fun _ v => .ok (f v)) s args) :=
    Filter.onValue_pastReading s args fun _ => .ok _
  simp only [filters, List.forall_mem_cons]
  exact ⟨htext _, htext _, htext _, htext _, Filter.trim_pastReading, Filter.replace_pastReading,
    Filter.length_pastReading, Filter.length_pastReading, Filter.join_pastReading,
    Filter.first_pastReading, Filter.last_pastReading, Filter.sort_pastReading,
    Filter.reverse_pastReading, hextreme _, hextreme _, Filter.sum_pastReading,
    Filter.unique_pastReading, Filter.list_pastReading, Filter.default_pastReading,
    Filter.default_pastReading, Filter.int_pastReading, Filter.float_pastReading,
    hvalue fun v => .string v.display, hvalue fun v => .bool v.truthy, Filter.abs_pastReading,
    Filter.round_pastReading, Filter.split_pastReading, Filter.encode_pastReading,
    Filter.decode_pastReading, nofun⟩

namespace Check

variable (s : Setting) (args : Arguments)

theorem ofValue_pastReading (p : Value → Bool) : PastReading (ofValue p s args) :=
  .bind (Taking.run_pastReading Taking.value_pastReading _) fun _ => .pure _

theorem ofTexts_pastReading (p : List Char → List Char → Bool) :
    PastReading (ofTexts p s args) := by
  refine Taking.run_pastReading ?_ _
  exact .bind (Taking.text_pastReading s) fun _ => .bind (Taking.text_pastReading s) fun _ =>
    .pure _

theorem divisible_pastReading : PastReading (divisible s args) := by
  refine Taking.run_pastReading ?_ _
  exact .bind Taking.value_pastReading fun _ => .bind Taking.value_pastReading fun _ => .pure _

end Check

/-- **Tests** have no problem of reading. -/
theorem checks_pastReading : ∀ entry ∈ checks, ∀ s args, PastReading (entry.2 s args) := by
  simp only [checks, List.forall_mem_cons]
  simp [Check.ofInteger, Check.ofValue_pastReading, Check.ofTexts_pastReading,
    Check.divisible_pastReading]

namespace Function

variable (s : Setting) (seed : Nat) (args : Arguments)

theorem range_pastReading : PastReading (range s seed args) := by
  refine Taking.run_pastReading ?_ _
  refine .bind (Taking.integer_pastReading _ _) fun first => ?_
  refine .bind (Taking.integer?_pastReading _ _) fun second => ?_
  refine .bind (Taking.integer?_pastReading _ _) fun step => ?_
  have hitems (low high step : Nat) : PastReading (rangeItems low high step) := by
    unfold rangeItems
    dsimp only
    split <;> simp
  dsimp only
  by_cases hstep : step = some 0
  · rw [if_pos hstep]
    exact .throw rfl
  · rw [if_neg hstep]
    exact .lift (hitems _ _ _)

theorem identifier_pastReading : PastReading (identifier s seed args) :=
  .bind (Taking.run_pastReading (.pure ()) _) fun _ => .pure _

theorem timestamp_pastReading : PastReading (timestamp s seed args) := by
  refine .bind (Taking.run_pastReading Taking.text?_pastReading _) fun format => ?_
  split <;> simp

theorem env_pastReading : PastReading (env s seed args) := by
  refine Taking.run_pastReading ?_ _
  exact .bind (Taking.text_pastReading s) fun _ => .bind Taking.text?_pastReading fun _ => .pure _

theorem hostname_pastReading : PastReading (hostname s seed args) :=
  .bind (Taking.run_pastReading (.pure ()) _) fun _ => .pure _

end Function

/-- **Functions** have no problem of reading. -/
theorem functions_pastReading :
    ∀ entry ∈ functions, ∀ s seed args, PastReading (entry.2 s seed args) := by
  simp only [functions, List.forall_mem_cons]
  exact ⟨Function.range_pastReading, Function.identifier_pastReading,
    Function.timestamp_pastReading, Function.env_pastReading, Function.hostname_pastReading, nofun⟩

/-! ### Evaluating -/

theorem callFunction_pastReading (s : Setting) (seed : Nat) (name : String) (args : Arguments) :
    PastReading (callFunction s seed name args) := by
  unfold callFunction
  split
  next f hf => exact functions_pastReading _ (Table.mem_of_get? hf) s _ args
  · simp

theorem callValue_pastReading (s : Setting) (scope : Scope) (v : Value) (args : Arguments) :
    PastReading (callValue s scope v args) := by
  unfold callValue
  split
  · exact callFunction_pastReading s _ _ args
  · simp

theorem callNamed_pastReading (s : Setting) (scope : Scope) (place : Nat) (name : String)
    (args : Arguments) : PastReading (callNamed s scope place name args) := by
  unfold callNamed
  split
  · exact callValue_pastReading s scope _ args
  · exact callFunction_pastReading s _ name args

theorem callMethod_pastReading (s : Setting) (scope : Scope) (object : Value) (name : String)
    (args : Arguments) : PastReading (callMethod s scope object name args) := by
  unfold callMethod
  split
  · simp
  · split
    · exact callValue_pastReading s scope _ args
    · simp
  · simp

theorem applyFilter_pastReading (s : Setting) (name : String) (args : Arguments) :
    PastReading (applyFilter s name args) := by
  unfold applyFilter
  split
  next f hf => exact filters_pastReading _ (Table.mem_of_get? hf) s args
  · simp

theorem applyCheck_pastReading (s : Setting) (name : String) (args : Arguments) :
    PastReading (applyCheck s name args) := by
  unfold applyCheck
  split
  next check hcheck => exact .map (checks_pastReading _ (Table.mem_of_get? hcheck) s args) _
  · simp

section

variable (s : Setting) (scope : Scope)

mutual

/-- **The evaluation of an expression** has no problem of reading. -/
theorem Expr.eval_pastReading (e : Expr) : PastReading (e.eval s scope) := by
  match e with
  | .literal value => exact .ok _
  | .variable name => exact .ok _
  | .list items =>
      exact .bind (evalItems_pastReading items) fun _ => .pure _
  | .map entries =>
      exact .bind (evalEntries_pastReading entries) fun _ => .pure _
  | .unary .not operand =>
      refine .bind operand.eval_pastReading fun v => ?_
      exact .bind (s.isTrue_pastReading v) fun _ => .pure _
  | .unary .negate operand =>
      exact .bind operand.eval_pastReading Value.negate_pastReading
  | .binary op left right =>
      refine .bind left.eval_pastReading fun a => .bind right.eval_pastReading fun b => ?_
      exact op.applyIn_pastReading s a b
  | .logic .and left right =>
      refine .bind left.eval_pastReading fun a => .bind (s.isTrue_pastReading a) fun holds => ?_
      split
      · exact right.eval_pastReading
      · exact .pure a
  | .logic .or left right =>
      refine .bind left.eval_pastReading fun a => .bind (s.isTrue_pastReading a) fun holds => ?_
      split
      · exact .pure a
      · exact right.eval_pastReading
  | .compare first steps =>
      exact .bind first.eval_pastReading fun a => evalSteps_pastReading a true steps
  | .choose condition consequence alternative =>
      refine .bind condition.eval_pastReading fun c => ?_
      refine .bind (s.isTrue_pastReading c) fun holds => ?_
      split
      · exact consequence.eval_pastReading
      · exact .bind (evalOptional_pastReading alternative) fun _ => .pure _
  | .attribute object name =>
      exact .bind object.eval_pastReading fun v => v.member_pastReading name
  | .item object key =>
      refine .bind object.eval_pastReading fun v => .bind key.eval_pastReading fun k => ?_
      exact v.item_pastReading k
  | .slice object start stop step =>
      refine .bind object.eval_pastReading fun v => ?_
      refine .bind (evalOptional_pastReading start) fun start => ?_
      refine .bind (evalOptional_pastReading stop) fun stop => ?_
      refine .bind (evalOptional_pastReading step) fun step => ?_
      exact v.slice_pastReading start stop step
  | .call place (.variable name) args =>
      refine .bind (evalArguments_pastReading args) fun args => ?_
      exact callNamed_pastReading s scope place name _
  | .call place (.attribute object name) args =>
      refine .bind object.eval_pastReading fun v => ?_
      exact .bind (evalArguments_pastReading args) fun _ => callMethod_pastReading s scope v name _
  | .call place (.literal ..) args | .call place (.list ..) args | .call place (.map ..) args
  | .call place (.unary ..) args | .call place (.binary ..) args | .call place (.logic ..) args
  | .call place (.compare ..) args | .call place (.choose ..) args | .call place (.item ..) args
  | .call place (.slice ..) args | .call place (.call ..) args | .call place (.filter ..) args
  | .call place (.test ..) args =>
      refine .bind (Expr.eval_pastReading _) fun v => ?_
      exact .bind (evalArguments_pastReading args) fun _ => callValue_pastReading s scope v _
  | .filter name operand args =>
      refine .bind operand.eval_pastReading fun v => ?_
      refine .bind (evalArguments_pastReading args) fun args => ?_
      exact applyFilter_pastReading s name _
  | .test name operand args =>
      refine .bind operand.eval_pastReading fun v => ?_
      refine .bind (evalArguments_pastReading args) fun args => ?_
      exact applyCheck_pastReading s name _

theorem evalItems_pastReading (items : List Expr) : PastReading (evalItems s scope items) := by
  match items with
  | [] => exact .ok []
  | item :: rest =>
      refine .bind item.eval_pastReading fun v => ?_
      exact .bind (evalItems_pastReading rest) fun _ => .pure _

theorem evalEntries_pastReading (entries : List (Expr × Expr)) :
    PastReading (evalEntries s scope entries) := by
  match entries with
  | [] => exact .ok []
  | (key, value) :: rest =>
      refine .bind key.eval_pastReading fun k => .bind value.eval_pastReading fun v => ?_
      exact .bind (evalEntries_pastReading rest) fun _ => .pure _

theorem evalOptional_pastReading (e : Option Expr) : PastReading (evalOptional s scope e) := by
  match e with
  | none => exact .ok none
  | some e => exact .bind e.eval_pastReading fun _ => .pure _

theorem evalArguments_pastReading (args : List (Option String × Expr)) :
    PastReading (evalArguments s scope args) := by
  match args with
  | [] => exact .ok []
  | (name, e) :: rest =>
      refine .bind e.eval_pastReading fun v => ?_
      exact .bind (evalArguments_pastReading rest) fun _ => .pure _

theorem evalSteps_pastReading (left : Value) (holds : Bool) (steps : List (CompareOp × Expr)) :
    PastReading (evalSteps s scope left holds steps) := by
  match steps with
  | [] => exact .ok _
  | (op, e) :: rest =>
      rw [evalSteps]
      split
      · refine .bind e.eval_pastReading fun right => ?_
        refine .bind (s.use_pastReading left) fun left => ?_
        refine .bind (s.use_pastReading right) fun used => ?_
        refine .bind (op.apply_pastReading left used) fun holds => ?_
        exact evalSteps_pastReading right holds rest
      · exact .ok _

end

end

end Runsheet.Expression

/-! ### Rendering -/

namespace Runsheet.Template

open Runsheet.Expression

namespace Rendering

variable (s : Setting) (vars : Vars)

theorem emit_pastReading (text : String) : AlwaysPastReading (emit text) :=
  .modify _

theorem bindName_pastReading (name : String) (v : Value) : AlwaysPastReading (bindName name v) :=
  .modify _

theorem eval_pastReading (e : Expr) : AlwaysPastReading (eval s vars e) :=
  .bind .get fun p => .lift (e.eval_pastReading s { locals := p.frames.flatten, vars })

mutual

theorem assign_pastReading (v : Value) (target : Target) : AlwaysPastReading (assign s v target) := by
  match target with
  | .name name => exact bindName_pastReading name v
  | .several targets =>
      rw [assign]
      split
      · exact assignAll_pastReading _ targets
      · exact .throw rfl
  | .part => exact .throw rfl

theorem assignAll_pastReading (values : List Value) (targets : List Target) :
    AlwaysPastReading (assignAll s values targets) := by
  match targets with
  | [] =>
      rw [assignAll]
      split
      · exact .pure ()
      · exact .throw rfl
  | target :: rest =>
      match values with
      | [] => exact .throw rfl
      | v :: more => exact .bind (assign_pastReading v target) fun _ => assignAll_pastReading more rest

end

theorem passing_pastReading (target : Target) (condition : Option Expr) (items : List Value) :
    AlwaysPastReading (passing s vars target condition items) := by
  induction items with
  | nil => exact .pure []
  | cons item rest ih =>
      cases condition with
      | none => exact .pure _
      | some e =>
          refine .bind (.modify _) fun _ => ?_
          refine .bind (assign_pastReading s item target) fun _ => ?_
          refine .bind (eval_pastReading s vars e) fun v => .bind (.modify _) fun _ => ?_
          exact .bind (.lift (s.isTrue_pastReading v)) fun _ => .bind ih fun _ => .pure _

theorem filtered_pastReading (v : Value) (filters : List FilterCall) :
    AlwaysPastReading (filtered s vars v filters) := by
  induction filters generalizing v with
  | nil => exact .pure v
  | cons filter rest ih =>
      obtain ⟨name, args⟩ := filter
      refine .bind .get fun p => .bind (.lift (evalArguments_pastReading s _ args)) fun args => ?_
      exact .bind (.lift (applyFilter_pastReading s name _)) ih

/-- Rounds that are past reading make a loop that is. -/
theorem forM_pastReading {α : Type} {f : α → Rendering Unit} (hf : ∀ a, AlwaysPastReading (f a))
    (rounds : List α) : AlwaysPastReading (rounds.forM f) := by
  induction rounds with
  | nil => exact .pure ()
  | cons round rest ih => exact .bind (hf round) fun _ => ih

mutual

/-- **The rendering of a part** has no problem of reading. -/
theorem part_pastReading (depth : Nat) (p : Part) : AlwaysPastReading (part s vars depth p) := by
  match p with
  | .text text => exact emit_pastReading text
  | .shown e =>
      refine .bind (eval_pastReading s vars e) fun v => ?_
      exact .bind (.lift (s.shown_pastReading v)) emit_pastReading
  | .choice condition yes no =>
      refine .bind (eval_pastReading s vars condition) fun v => ?_
      refine .bind (.lift (s.isTrue_pastReading v)) fun holds => ?_
      split
      · exact parts_pastReading depth yes
      · exact parts_pastReading depth no
  | .loop target source condition body otherwise =>
      refine .bind (eval_pastReading s vars source) fun v => ?_
      refine .bind (.lift (s.items_pastReading v)) fun all => ?_
      refine .bind (passing_pastReading s vars target condition all) fun items => ?_
      split
      · exact parts_pastReading depth otherwise
      · refine .bind (.modify _) fun _ => .bind (forM_pastReading (fun entry => ?_) _) fun _ => ?_
        · refine .bind (bindName_pastReading _ _) fun _ => ?_
          refine .bind (assign_pastReading s entry.1 target) fun _ => ?_
          exact parts_pastReading (depth + 1) body
        · exact .modify _
  | .assign target e =>
      exact .bind (eval_pastReading s vars e) fun v => assign_pastReading s v target
  | .capture target filters body =>
      refine .bind .get fun _ => .bind (.modify _) fun _ => ?_
      refine .bind (parts_pastReading depth body) fun _ => .bind .get fun _ => ?_
      refine .bind (.modify _) fun _ => .bind (filtered_pastReading s vars _ filters) fun v => ?_
      exact assign_pastReading s v target

theorem parts_pastReading (depth : Nat) (all : List Part) :
    AlwaysPastReading (parts s vars depth all) := by
  match all with
  | [] => exact .pure ()
  | first :: rest => exact .bind (part_pastReading depth first) fun _ => parts_pastReading depth rest

end

end Rendering

/-- **The rendering of a template** has no problem of reading. -/
theorem render_pastReading (s : Setting) (vars : Vars) (all : List Part) :
    PastReading (render s vars all) :=
  .bind (Rendering.parts_pastReading s vars 0 all _) fun _ => .pure _

end Runsheet.Template
