import QueryLabel.Cache.Basic
import QueryLabel.Statement
import QueryLabel.Summary
/-!
Summarizing with a memory: a text that was seen before is not read again.
-/

namespace QueryLabel

/-- A cache of summaries under the exact texts of their queries. -/
abbrev Summarizer := Cache String

namespace Summarizer

def summarize (s : Summarizer) (sql : String) : String × Summarizer :=
  s.fetch sql fun _ => Summary.ofQuery sql

/-- Summarizes texts one after another. -/
def batch (s : Summarizer) : List String → List String × Summarizer
  | [] => ([], s)
  | sql :: rest =>
    let (summary, s') := s.summarize sql
    let (summaries, s'') := batch s' rest
    (summary :: summaries, s'')

/-- What a summarizer may be asked. -/
inductive Request
  | summarize (sql : String)
  | batch (texts : List String)
  | script (sql : String)
  | store (sql summary : String)
  | get (sql : String)
  | configure (capacity : Capacity)
  | clear
  deriving DecidableEq

/-- What a summarizer answers. -/
inductive Answer
  | done
  | summary (text : String)
  | summaries (texts : List String)
  | found (summary : Option String)
  deriving DecidableEq

def serve (s : Summarizer) : Request → Answer × Summarizer
  | .summarize sql => let (text, s') := s.summarize sql; (.summary text, s')
  | .batch texts => let (summaries, s') := s.batch texts; (.summaries summaries, s')
  | .script sql => let (summaries, s') := s.batch (Statement.split sql); (.summaries summaries, s')
  | .store sql summary => (.done, s.store sql summary)
  | .get sql => (.found (s.get? sql), s)
  | .configure capacity => (.done, s.configure capacity)
  | .clear => (.done, s.clear)

/-- Answers requests in turn. -/
def serveAll (s : Summarizer) : List Request → List Answer × Summarizer
  | [] => ([], s)
  | request :: requests =>
    let (answer, s') := s.serve request
    let (answers, s'') := serveAll s' requests
    (answer :: answers, s'')

end Summarizer

end QueryLabel
