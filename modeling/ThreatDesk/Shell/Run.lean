import ThreatDesk.Shell.Line
import ThreatDesk.Engine.Request

/-!
# Running command lines

The engine attends to the stages of an operation one by one. Operations end because their stages lose
rank. All that a line does is done at one time, and where the clock tells none no line is taken in
(`execute_eq_ok`, `execute_eq_error`).
-/

namespace ThreatDesk

namespace Shell

structure Outcome (σ : Type) where
  engine : σ
  /-- The desk at the end, and what the line itself has said. -/
  answer : Answer
  /-- What the lines entered meanwhile have said, and the desks they left. -/
  asides : List Answer

/-- The answer so far after what happened while the engine worked. A line that is entered then is done
at once, since it can begin nothing. -/
def meanwhile (a : Answer) (asides : List Answer) : List Interlude → Answer × List Answer
  | [] => (a, asides)
  | .progress text :: rest => meanwhile (a.system text) asides rest
  | .line raw :: rest =>
    let aside := (begin a.desk a.now raw).1
    meanwhile { a with desk := aside.desk } (asides ++ [aside]) rest

variable {σ : Type}

def drive (engine : Engine σ) (state : σ) (a : Answer) (asides : List Answer) (s : Stage) :
    Outcome σ :=
  let attended := engine.attend state a.desk.host s.request
  let (b, asides) := meanwhile a asides attended.interludes
  match _ : resume b s attended.reply with
  | (b, none) => ⟨attended.state, b, asides⟩
  | (b, some t) => drive engine attended.state b asides t
termination_by s.rank
decreasing_by exact rank_resume (congrArg Prod.snd ‹_›)

def executeAt (engine : Engine σ) (state : σ) (d : Desk) (now : Int) (raw : Text) : Outcome σ :=
  match begin d now raw with
  | (a, none) => ⟨state, a, []⟩
  | (a, some s) => drive engine state a [] s

structure Refusal where
  fault : Number.Fault
  desk : Desk

def execute (engine : Engine σ) (state : σ) (d : Desk) (raw : Text) : Except Refusal (Outcome σ) :=
  match Calendar.milliseconds d.host.clock with
  | .error fault => .error ⟨fault, { d with session := d.session.skipLine }⟩
  | .ok now => .ok (executeAt engine state d now raw)

theorem execute_eq_ok {d : Desk} {now : Int} (h : Calendar.milliseconds d.host.clock = .ok now)
    (engine : Engine σ) (state : σ) (raw : Text) :
    execute engine state d raw = .ok (executeAt engine state d now raw) := by
  rw [execute, h]

theorem execute_eq_error {d : Desk} {fault : Number.Fault}
    (h : Calendar.milliseconds d.host.clock = .error fault) (engine : Engine σ) (state : σ)
    (raw : Text) :
    execute engine state d raw = .error ⟨fault, { d with session := d.session.skipLine }⟩ := by
  rw [execute, h]

end Shell

end ThreatDesk
