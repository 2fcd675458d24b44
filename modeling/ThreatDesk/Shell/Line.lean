import ThreatDesk.Shell.Command
import ThreatDesk.Shell.Operation

/-!
# Command lines

A line is echoed and its verb is done at once or begun as a long operation, of which there is only one
at a time. Main statement: while one is under way no line begins another (`begin_of_isBusy`).
-/

namespace ThreatDesk

namespace Shell

def startUnlessBusy (a : Answer) (op : Operation) : Answer × Option Stage :=
  if a.session.isBusy then (a.error "BUSY.", none)
  else
    let (a, s) := start a op
    (a, some s)

def perform (a : Answer) (verb : Verb) (args : List Text) (raw : Text) : Answer × Option Stage :=
  match verb with
  | .help => (a.output Manual.help, none)
  | .about => (a.system Manual.about, none)
  | .version => (version a, none)
  | .clear => (clear a, none)
  | .ls => (list a args, none)
  | .cd => (changeDirectory a args, none)
  | .mkdir => (makeDirectory a args, none)
  | .cat => (read a args, none)
  | .write => (write a raw args, none)
  | .find => (find a args, none)
  | .status => (status a, none)
  | .setkey => (setKey a args, none)
  | .run => (run a args, none)
  | .analyze => startUnlessBusy a .analyze
  | .research => startUnlessBusy a .research
  | .scan => startUnlessBusy a .scan
  | .browse =>
    match args with
    | [] => (usage a "browse [url]", none)
    | url :: _ => startUnlessBusy a (.browse url)
  | .ask =>
    match args with
    | [] => (usage a "ask [message]", none)
    | _ :: _ => startUnlessBusy a (.ask (raw.argument 1))
  | .exportSession => (exportSession a, none)
  | .load => (load a args, none)

/-- Take in a line. What is left to be done waits for the engine. -/
def begin (d : Desk) (now : Int) (raw : Text) : Answer × Option Stage :=
  let a := (d.silent now).say .input raw
  match raw.words with
  | [] => (a, none)
  | word :: args =>
    match Verb.ofText? word.lower with
    | none => (a.error ("Unknown command: " ++ word.lower), none)
    | some verb => perform a verb args raw

theorem perform_of_isBusy {a : Answer} (h : a.session.isBusy = true) (verb : Verb)
    (args : List Text) (raw : Text) : (perform a verb args raw).2 = none := by
  have hs (op : Operation) : (startUnlessBusy a op).2 = none := by simp [startUnlessBusy, h]
  cases verb <;> simp only [perform, hs] <;> cases args <;> simp [hs]

theorem begin_of_isBusy {d : Desk} (h : d.session.isBusy = true) (now : Int) (raw : Text) :
    (begin d now raw).2 = none := by
  have hb : ((d.silent now).say .input raw).session.isBusy = true := h
  unfold begin
  simp only
  split
  · rfl
  · split
    · rfl
    · exact perform_of_isBusy hb ..

end Shell

end ThreatDesk
