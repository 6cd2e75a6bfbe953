import CDeclarations.Session.Entry

namespace CDeclarations

/-- What a session wrote, what it found wrong, and in the end whether nothing was, unless the
output was lost. -/
structure Transcript where
  said : List UInt8
  findings : List Finding
  outcome : Except SinkFault Bool

/-- Writes entries one after another. One that cannot be written ends the session before
anything is said about its failure. -/
def deliver : List Entry → Sink → Transcript
  | [], sink => ⟨[], [], sink.flush.map fun _ => true⟩
  | e :: entries, sink =>
    let written := sink.write e.text
    if !written.complete then ⟨written.taken, [], .error .closed⟩
    else
      let later := deliver entries written.sink
      ⟨written.taken ++ later.said, e.finding?.toList ++ later.findings,
        later.outcome.map (e.failure.isNone && ·)⟩

/-- Treats a source line by line, up to the first failure unless the settings say otherwise. -/
def runSession (settings : Settings) (source : String) (sink : Sink) : Transcript :=
  let entries := entries settings source
  deliver (if settings.keepGoing then entries else throughFailure entries) sink

/-- The messages about findings, each on lines of its own. -/
def renderFindings (colors : Bool) (d : Diagnostic) (findings : List Finding) : String :=
  String.join (findings.map fun finding => (d.about finding).render colors ++ "\n")

end CDeclarations
