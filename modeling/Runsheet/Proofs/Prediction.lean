import Runsheet.Evaluator
import Runsheet.Proofs.PastReading

/-!
# What a check of the syntax predicts

The syntax of a text is checked without any variables, and its value and truth are found by computations of
their own.  All three take the text for one of four forms and read it again.  They agree on what cannot be
read, and what can be read has no problem of reading any more.

* `Predicts` — a check and a computation agree on problems of reading;
* `valueOf_predicted`, `render_predicted` — expressions and templates;
* `evaluateIn_predicted`, `validateIn_predicted` — texts of any form;
* `syntax_check_predicts` — the result.
-/

namespace Runsheet

open Runsheet.Expression

namespace ExpressionError

/-- Is an error one that is found while reading? -/
def ofReading : ExpressionError → Bool
  | .malformed _ => true
  | .evaluation _ problem | .render _ problem => problem.ofReading
  | .data _ => false

theorem ofReading_ofExpression (expression : String) (problem : Problem) :
    (ofExpression expression problem).ofReading = problem.ofReading := by
  cases problem <;> rfl

theorem ofReading_ofTemplate (template : String) (problem : Problem) :
    (ofTemplate template problem).ofReading = problem.ofReading := by
  cases problem <;> rfl

end ExpressionError

namespace Evaluator

variable {α β : Type} {check : Except ExpressionError Unit} {x : Except ExpressionError α}

/-- **A check predicts a computation**: an error of the check is the error of the computation, and where the
check passes the computation does not end with an error of reading. -/
structure Predicts (check : Except ExpressionError Unit) (x : Except ExpressionError α) : Prop where
  fails : ∀ error, check = .error error → x = .error error
  passes : check = .ok () → ∀ error, x = .error error → error.ofReading = false

namespace Predicts

theorem of_ok (check_passes : check = .ok ()) (a : α) : Predicts check (.ok a) where
  fails error h := by
    rw [check_passes] at h
    cases h
  passes _ error h := by cases h

/-- What follows a predicted computation is predicted, if it has no error of reading. -/
theorem bind (hx : Predicts check x) {k : α → Except ExpressionError β}
    (hk : ∀ a error, k a = .error error → error.ofReading = false) : Predicts check (x >>= k) where
  fails error h := by
    rw [hx.fails error h]
    rfl
  passes h error herror := by
    cases x with
    | error first =>
        cases herror
        exact hx.passes h _ rfl
    | ok a => exact hk a error herror

theorem map (hx : Predicts check x) (f : α → β) : Predicts check (f <$> x) := by
  rw [map_eq_pure_bind]
  exact hx.bind fun a error h => by cases h

/-- **Reading first**: a text that is checked by reading it predicts what is computed from what was read. -/
theorem of_read {read : Except Problem β} {k : β → Except Problem α}
    {quote : Problem → ExpressionError} (hk : ∀ b, PastReading (k b))
    (hquote : ∀ problem, (quote problem).ofReading = problem.ofReading) :
    Predicts ((discard read).mapError quote) ((read >>= k).mapError quote) := by
  cases read with
  | error problem =>
      refine ⟨fun error h => ?_, fun h => by cases h⟩
      cases h
      rfl
  | ok b =>
      refine ⟨fun error h => (by cases h), fun _ error herror => ?_⟩
      have hstep : (k b).mapError quote = .error error := herror
      cases hvalue : k b with
      | ok a =>
          rw [hvalue] at hstep
          cases hstep
      | error problem =>
          rw [hvalue] at hstep
          cases hstep
          rw [hquote]
          exact hk b problem hvalue

end Predicts

variable (s : Setting) (vars : Vars)

theorem valueOf_predicted (expression : String) :
    Predicts ((discard (Expr.read expression)).mapError (.ofExpression expression))
      (valueOf s expression vars) := by
  have hvalue : valueOf s expression vars =
      (Expr.read expression >>= fun e => e.eval s { vars }).mapError (.ofExpression expression) := by
    rw [valueOf]
    cases Expr.read expression <;> rfl
  rw [hvalue]
  exact .of_read (fun e => e.eval_pastReading s { vars })
    (ExpressionError.ofReading_ofExpression expression)

theorem render_predicted (template : String) :
    Predicts ((discard (Template.read template)).mapError (.ofTemplate template))
      (render s template vars) :=
  .of_read (Template.render_pastReading s vars) (ExpressionError.ofReading_ofTemplate template)

/-- Turning a value into a data value has no error of reading. -/
theorem ofReading_of_dataOf {v : Value} {error : ExpressionError} (h : dataOf v = .error error) :
    error.ofReading = false := by
  unfold dataOf at h
  cases hjson : v.toJson with
  | ok data =>
      rw [hjson] at h
      cases h
  | error problem =>
      rw [hjson] at h
      cases h
      rfl

/-- **The check predicts the value of a text.** -/
theorem evaluateIn_predicted (text : String) :
    Predicts (checkSyntax text) (evaluateIn s text vars) := by
  unfold checkSyntax evaluateIn
  cases formOf text with
  | blank => exact .of_ok rfl _
  | template => exact (render_predicted s vars text).map _
  | wrapped expression =>
      exact (valueOf_predicted s vars expression).bind fun _ _ => ofReading_of_dataOf
  | bare expression =>
      exact (valueOf_predicted s vars expression).bind fun _ _ => ofReading_of_dataOf

/-- **The check predicts the truth of a text.** -/
theorem validateIn_predicted (text : String) :
    Predicts (checkSyntax text) (validateIn s text vars) := by
  unfold checkSyntax validateIn
  cases formOf text with
  | blank => exact .of_ok rfl _
  | template => exact (render_predicted s vars text).map _
  | wrapped expression => exact (valueOf_predicted s vars expression).map _
  | bare expression => exact (valueOf_predicted s vars expression).map _

end Evaluator

open Evaluator

/-- **A check of the syntax predicts the evaluation.**  For every text, of whatever form:

* if the check ends with an error, then in every setting and over all variables the value and the truth of the
  text end with the same error;
* if the check passes, then no setting and no variables make the value or the truth of the text end with an
  error of syntax, nor with any other one that is found while reading. -/
theorem syntax_check_predicts (text : String) :
    (∀ error, checkSyntax text = .error error → ∀ s vars,
      evaluateIn s text vars = .error error ∧ validateIn s text vars = .error error) ∧
    (checkSyntax text = .ok () → ∀ s vars error,
      evaluateIn s text vars = .error error ∨ validateIn s text vars = .error error →
      error.ofReading = false ∧ ∀ quoted, error ≠ .malformed quoted) := by
  refine ⟨fun error hcheck s vars => ?_, fun hcheck s vars error herror => ?_⟩
  · exact ⟨(evaluateIn_predicted s vars text).fails error hcheck,
      (validateIn_predicted s vars text).fails error hcheck⟩
  · have hread : error.ofReading = false := by
      rcases herror with hevaluate | hvalidate
      · exact (evaluateIn_predicted s vars text).passes hcheck error hevaluate
      · exact (validateIn_predicted s vars text).passes hcheck error hvalidate
    refine ⟨hread, ?_⟩
    rintro quoted rfl
    cases hread

/-- Marks the wrong way round are still those of a template, which cannot be read. -/
example : checkSyntax "\x7d\x7d \x7b\x7b" = .error (.malformed "\x7d\x7d \x7b\x7b") := by
  cbv

end Runsheet
