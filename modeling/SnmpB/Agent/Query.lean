import SnmpB.Library.Runs
import SnmpB.Agent.Start

/-! # The callbacks of one query

A query lives from its start function to the first callback that sends no
follow-up request. Only a walk has more than one callback.
-/
namespace SnmpB.Agent

/-- A query with the object lines formatted so far and the requests it has sent. -/
structure Query where
  agent : AgentState
  formatted : List ObjectLine
  outstanding : Option Request
  issued : List Request

def Query.start (a : AgentState) (request : Request) : Query := ⟨a, [], some request, [request]⟩

/-- The next callback, as long as a request is outstanding. -/
def Query.step (env : Printing) (iswalk : Bool) (q : Query) (r : Response) : Option Query :=
  match q.outstanding with
  | none => none
  | some _ =>
    (asyncCallback env iswalk r q.agent).map fun ret =>
      { agent := ret.agent
        formatted := q.formatted ++ ret.formatted
        outstanding := ret.reissued
        issued := q.issued ++ ret.reissued.toList }

variable {env : Printing} {iswalk : Bool}

theorem Query.step_some {q q' : Query} {r : Response} (h : q.step env iswalk r = some q') :
    (∃ request, q.outstanding = some request) ∧
    ∃ ret, asyncCallback env iswalk r q.agent = some ret ∧
      q' = ⟨ret.agent, q.formatted ++ ret.formatted, ret.reissued, q.issued ++ ret.reissued.toList⟩ := by
  unfold Query.step at h
  split at h
  · cases h
  · rename_i request hout
    obtain ⟨ret, hret, rfl⟩ := Option.map_eq_some_iff.mp h
    exact ⟨⟨request, hout⟩, ret, hret, rfl⟩

end SnmpB.Agent
