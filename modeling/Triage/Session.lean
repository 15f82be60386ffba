import Triage.Summary
import Triage.Rule

set_option autoImplicit false

/-!
A session holds the rules of one run and counts what they do. A diagnostic is shown to one session
after another until one of them drops it; a chain takes each diagnostic to its end before the next.
-/

namespace Triage

structure Session where
  rules : ProjectRules
  summary : Summary
  deriving DecidableEq

namespace Session

/-- Every file with rules has an entry from the start. -/
def start (rules : ProjectRules) : Session :=
  ⟨rules, rules.keys.foldl (fun s p => s.update p id) .empty⟩

/-- The verdict on a diagnostic, counted for its file if it has one. -/
def pass (s : Session) (d : Diagnostic) : Verdict × Session :=
  let v := s.rules.verdict d
  match d.file with
  | none => (v, s)
  | some path =>
    (v, { s with summary := s.summary.update path (Tally.count v d.code) })

def judge (r : FileRules) (t : Tally) : Tally :=
  { t with
    staleDefault := r.default = .ignore && t.ignored.isEmpty
    stale := r.ignoredCodes.filter fun c _ => !t.ignored.contains c }

def settle (s : Session) : Session :=
  { s with
    summary := s.rules.entries.foldl (fun sum e => sum.update e.1 (judge e.2)) s.summary }

def report (s : Session) : Summary := s.settle.summary

end Session

abbrev Chain := List Session

namespace Chain

/-- Takes one diagnostic through the chain. Each session sees the severity that the one before it
chose, and nothing comes after a session that drops the diagnostic. -/
def pass : Chain → Diagnostic → Option Diagnostic × Chain
  | [], d => (some d, [])
  | s :: rest, d =>
    let (v, s) := s.pass d
    match d.under v with
    | none => (none, s :: rest)
    | some d =>
      let (kept, rest) := pass rest d
      (kept, s :: rest)

def sieve : Chain → List Diagnostic → List Diagnostic × Chain
  | chain, [] => ([], chain)
  | chain, d :: ds =>
    let (kept, chain) := chain.pass d
    let (rest, chain) := chain.sieve ds
    (kept.toList ++ rest, chain)

end Chain
end Triage
