import ThreatDesk.Text.LowerCase
import ThreatDesk.Text.Blank
import ThreatDesk.Text.Basic

/-!
# Verbs

The commands of the shell, and what it says about them. Main statement: the name of a verb is read back as
the verb (`ofText?_name`).
-/

namespace ThreatDesk

inductive Verb
  | help
  | about
  | version
  | clear
  | ls
  | cd
  | mkdir
  | cat
  | write
  | find
  | status
  | setkey
  | run
  | analyze
  | research
  | scan
  | browse
  | ask
  | exportSession
  | load
deriving DecidableEq

namespace Verb

/-- The order decides which of several verbs of one length is suggested. -/
def all : List Verb :=
  [.help, .about, .version, .clear, .ls, .cd, .mkdir, .cat, .write, .find, .status, .setkey, .run,
   .analyze, .research, .scan, .browse, .ask, .exportSession, .load]

def name : Verb → Text
  | .help => "help"
  | .about => "about"
  | .version => "version"
  | .clear => "clear"
  | .ls => "ls"
  | .cd => "cd"
  | .mkdir => "mkdir"
  | .cat => "cat"
  | .write => "write"
  | .find => "find"
  | .status => "status"
  | .setkey => "setkey"
  | .run => "run"
  | .analyze => "analyze"
  | .research => "research"
  | .scan => "scan"
  | .browse => "browse"
  | .ask => "ask"
  | .exportSession => "export"
  | .load => "load"

def names : List Text := all.map name

def ofText? (t : Text) : Option Verb := all.find? fun v => v.name = t

theorem ofText?_name (v : Verb) : ofText? v.name = some v := by
  cases v <;> decide

end Verb

/-- What follows the first `skip` words of a command line, without white space around it and
without one pair of quotes. -/
def Text.argument (raw : Text) (skip : Nat) : Text :=
  let rest := Text.dropWords skip raw.trim
  match rest with
  | c :: d :: more =>
    if (c = '"' ∨ c = '\'') ∧ (d :: more).getLast? = some c then (d :: more).dropLast else rest
  | _ => rest

/-! ## Texts about the verbs -/

namespace Manual

def help : Text := "AVAILABLE COMMANDS:
  ls, cd, mkdir, cat, find - File System Ops
  write    - Write a file: write [path] [content]
  analyze  - Heuristic Threat Analysis (Incremental)
  research - Deep Web Recon & Exploit Gen
  scan     - Vulnerability Scanner
  browse   - Text-Based Web Browser
  ask      - Talk to the NetSec AI agent
  run      - Execute Scripts
  status   - Engine state, version, key
  setkey   - Store the API key
  export   - Save Session & Source
  load     - Restore Session
  about    - App Info
  version  - Check Version"

def about : Text :=
  "NetSec RetroDeck [CLASSIFIED]\n" ++
  "A unified threat analysis and rapid prototyping environment for AgentHopper class vectors.\n" ++
  "Includes: AI-driven Research, Heuristics Engine, Virtual FS, and Text-Web Proxy."

def keyGuidance : Text :=
  "ERROR: API KEY REQUIRED.\nRun 'setkey <YOUR_ANTHROPIC_API_KEY>' to configure the agent."

end Manual

end ThreatDesk
