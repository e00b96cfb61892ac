import PatternCompiler.Diagnostic
import PatternCompiler.Header
import PatternCompiler.Reading.Machine

/-!
Source texts: separating the flags from the pattern's body, and parsing the body. A `Parser` keeps
its place and the groups it has opened between calls, also after a failure, so that a further call
goes on from where the last one stopped.
-/

set_option autoImplicit false
set_option relaxedAutoImplicit false

namespace PatternCompiler

structure Source where
  flags : Flags
  body : String
  deriving DecidableEq

def Source.ofText (text : String) : Except Diagnostic Source :=
  match (Header.read text.toList).result with
  | .error v => .error (Diagnostic.ofViolation text v)
  | .ok ending =>
      let body := String.ofList ending.body.flatten
      match Header.lateDirective? 0 ending.body with
      | some pos => .error (Diagnostic.ofViolation body ⟨.lateDirective, pos⟩)
      | none => .ok ⟨ending.flags, body⟩

structure Parser where
  source : Source
  cursor : Cursor
  captures : Captures := {}

namespace Parser

def ofSource (source : Source) : Parser where
  source := source
  cursor := Cursor.ofText source.body.toList source.flags.extended

def read (p : Parser) : Reading.Outcome :=
  Reading.run { cursor := p.cursor, captures := p.captures }

def resume (p : Parser) (outcome : Reading.Outcome) : Parser :=
  { p with cursor := outcome.cursor, captures := outcome.captures }

/-- The tree that a reading has led to, or the diagnostic for its violation. -/
def tree (p : Parser) (outcome : Reading.Outcome) : Except Diagnostic Pattern :=
  outcome.result.mapError (Diagnostic.ofViolation p.source.body)

def parse (p : Parser) : Except Diagnostic Pattern × Parser :=
  let outcome := p.read
  (p.tree outcome, p.resume outcome)

theorem parse_eq_ok_iff_read {p : Parser} {t : Pattern} :
    p.parse.1 = .ok t ↔ p.read.result = .ok t := by
  change p.read.result.mapError _ = _ ↔ _
  cases p.read.result with
  | ok t' =>
      change Except.ok t' = _ ↔ _
      rw [Except.ok.injEq, Except.ok.injEq]
  | error v =>
      change Except.error _ = _ ↔ _
      simp

theorem parse_eq_error_iff_read {p : Parser} {d : Diagnostic} :
    p.parse.1 = .error d ↔
      ∃ v, p.read.result = .error v ∧ Diagnostic.ofViolation p.source.body v = d := by
  change p.read.result.mapError _ = _ ↔ _
  cases p.read.result with
  | ok t =>
      change Except.ok t = _ ↔ _
      simp
  | error v =>
      change Except.error (Diagnostic.ofViolation p.source.body v) = _ ↔ _
      simp

end Parser

def Source.parse (source : Source) : Except Diagnostic Pattern :=
  (Parser.ofSource source).parse.1

end PatternCompiler
