import ThreatDesk.Proofs.Shell.History

/-!
# Who has said what

A ledger keeps every command that has been taken in with what it has said, also when it is over. Its
steps are those of the floor (`Step.floor`, `exists_step`). Whatever a listener hears belongs to one
command of the ledger, and each command has said its share of it in order (`Reaches.heard`). Main
statement: `history_conserved`.
-/

namespace ThreatDesk

namespace Shell

open Answer (Speaks)

/-- A command that has been taken in: its time, what it has said and where it waits, if it does. -/
structure Command where
  now : Int
  said : List Line
  stage? : Option Stage

namespace Command

def waiting (p : Pending) : Command := ⟨p.now, p.said, some p.stage⟩

def pending? (c : Command) : Option Pending := c.stage?.map fun s => ⟨c.now, c.said, s⟩

def ofResult (r : Answer × Option Stage) : Command := ⟨r.1.now, r.1.said, r.2⟩

theorem eq_waiting {c : Command} {p : Pending} (h : c.pending? = some p) : c = waiting p := by
  obtain ⟨now, said, stage?⟩ := c
  obtain ⟨s, rfl, rfl⟩ := Option.map_eq_some_iff.1 h
  rfl

end Command

structure Ledger where
  desk : Desk
  commands : List Command

namespace Ledger

def floor (l : Ledger) : Floor := ⟨l.desk, l.commands.filterMap Command.pending?⟩

def record (before after : List Command) (r : Answer × Option Stage) : Ledger :=
  ⟨r.1.desk, before ++ .ofResult r :: after⟩

inductive Step (hosts : Host → Prop) : Ledger → Ledger → Prop
  | host (l : Ledger) {h : Host} (hh : hosts h) :
    Step hosts l { l with desk := { l.desk with host := h } }
  | refused (l : Ledger) :
    Step hosts l { l with desk := { l.desk with session := l.desk.session.skipLine } }
  | line (l : Ledger) (now : Int) (raw : Text) :
    Step hosts l (record l.commands [] (begin l.desk now raw))
  | progress {d : Desk} {before after : List Command} {p : Pending} (text : Text) :
    Step hosts ⟨d, before ++ .waiting p :: after⟩
      (record before after ((p.answer d).system text, some p.stage))
  | signal {d : Desk} {before after : List Command} {p : Pending} (signal : Signal p.stage) :
    Step hosts ⟨d, before ++ .waiting p :: after⟩
      (record before after (continued (p.answer d) p.stage signal))

abbrev Reaches (hosts : Host → Prop) : Ledger → Ledger → Prop := Relation.ReflTransGen (Step hosts)

/-! ## Ledgers and floors -/

variable {hosts : Host → Prop}

theorem floor_record (before after : List Command) (r : Answer × Option Stage) :
    (record before after r).floor =
      Floor.settle (before.filterMap Command.pending?) (after.filterMap Command.pending?) r := by
  obtain ⟨a, s⟩ := r
  rw [record, floor, List.filterMap_append]
  cases s with
  | none => rw [List.filterMap_cons_none rfl, Floor.settle]
  | some s =>
    rw [List.filterMap_cons_some (show (Command.ofResult (a, some s)).pending? = _ from rfl)]
    rfl

theorem floor_waiting (d : Desk) (before after : List Command) (p : Pending) :
    floor ⟨d, before ++ .waiting p :: after⟩ =
      ⟨d, before.filterMap Command.pending? ++ p :: after.filterMap Command.pending?⟩ := by
  simp [floor, Command.waiting, Command.pending?]

theorem Step.floor {l m : Ledger} (h : Step hosts l m) : Floor.Step hosts l.floor m.floor := by
  cases h with
  | host l hh => exact .host l.floor hh
  | refused l => exact .refused l.floor
  | line l now raw =>
    rw [floor_record]
    exact .line l.floor now raw
  | progress text =>
    rw [floor_record, floor_waiting]
    exact .progress text
  | signal signal =>
    rw [floor_record, floor_waiting]
    exact .signal signal

theorem exists_waiting {l : Ledger} {d : Desk} {before after : List Pending} {p : Pending}
    (h : l.floor = ⟨d, before ++ p :: after⟩) :
    ∃ bs as, l = ⟨d, bs ++ .waiting p :: as⟩ ∧ bs.filterMap Command.pending? = before ∧
      as.filterMap Command.pending? = after := by
  obtain ⟨desk, commands⟩ := l
  obtain ⟨rfl, hpending⟩ := Floor.mk.inj h
  obtain ⟨bs, rest, rfl, hbefore, hrest⟩ := List.filterMap_eq_append_iff.1 hpending
  obtain ⟨past, c, as, rfl, hpast, hc, hafter⟩ := List.filterMap_eq_cons_iff.1 hrest
  refine ⟨bs ++ past, as, ?_, ?_, hafter⟩
  · rw [Command.eq_waiting hc, List.append_assoc]
  · rw [List.filterMap_append, hbefore, List.filterMap_eq_nil_iff.2 hpast, List.append_nil]

/-- Every step of the floor is one of the ledger. -/
theorem exists_step {l : Ledger} {g : Floor} (h : Floor.Step hosts l.floor g) :
    ∃ m, Step hosts l m ∧ m.floor = g := by
  generalize hf : l.floor = f at h
  cases h with
  | host f hh => exact ⟨_, .host l hh, by rw [← hf]; rfl⟩
  | refused f => exact ⟨_, .refused l, by rw [← hf]; rfl⟩
  | line f now raw => exact ⟨_, .line l now raw, by rw [floor_record, ← hf]; rfl⟩
  | progress text =>
    obtain ⟨bs, as, rfl, rfl, rfl⟩ := exists_waiting hf
    exact ⟨_, .progress text, floor_record ..⟩
  | signal signal =>
    obtain ⟨bs, as, rfl, rfl, rfl⟩ := exists_waiting hf
    exact ⟨_, .signal signal, floor_record ..⟩

theorem Reaches.floor {l m : Ledger} (h : Reaches hosts l m) :
    Floor.Reaches hosts l.floor m.floor := by
  induction h with
  | refl => exact .refl
  | tail _ hs ih => exact ih.tail hs.floor

theorem exists_reaches {l : Ledger} {g : Floor} (h : Floor.Reaches hosts l.floor g) :
    ∃ m, Reaches hosts l m ∧ m.floor = g := by
  induction h with
  | refl => exact ⟨l, .refl, rfl⟩
  | tail _ hs ih =>
    obtain ⟨m, hm, rfl⟩ := ih
    obtain ⟨n, hn, hg⟩ := exists_step hs
    exact ⟨n, hm.tail hn, hg⟩

/-! ## What is heard -/

/-- What the command of that number has said of what a listener has heard. -/
def share (i : Nat) (stream : List (Nat × Line)) : List Line :=
  (stream.filter fun e => e.1 = i).map Prod.snd

theorem share_append (i : Nat) (stream more : List (Nat × Line)) :
    share i (stream ++ more) = share i stream ++ share i more := by
  rw [share, List.filter_append, List.map_append]
  rfl

theorem share_self (i : Nat) (ls : List Line) : share i (ls.map fun l => (i, l)) = ls := by
  induction ls with
  | nil => rfl
  | cons l ls ih =>
    rw [List.map_cons, share, List.filter_cons_of_pos (by simp), List.map_cons]
    exact congrArg _ ih

theorem share_eq_nil {i : Nat} {stream : List (Nat × Line)} (h : ∀ e ∈ stream, e.1 ≠ i) :
    share i stream = [] := by
  rw [share, List.filter_eq_nil_iff.2 (by simpa using h)]
  rfl

theorem share_sublist (i : Nat) (stream : List (Nat × Line)) :
    (share i stream).Sublist (stream.map Prod.snd) :=
  List.filter_sublist.map _

/-- A listener has heard those lines beyond what was told before. Each belongs to one command of the
ledger, and what a command has said are its own of these lines, in order. -/
structure Heard (l : Ledger) (before : List Line) (stream : List (Nat × Line)) : Prop where
  told : l.desk.session.told = before ++ stream.map Prod.snd
  owned : ∀ e ∈ stream, e.1 < l.commands.length
  said : ∀ i c, l.commands[i]? = some c → c.said = share i stream

theorem Heard.sublist {l : Ledger} {told : List Line} {stream : List (Nat × Line)}
    (h : l.Heard told stream) : ∀ c ∈ l.commands, c.said.Sublist (stream.map Prod.snd) := by
  intro c hc
  obtain ⟨i, hi⟩ := List.mem_iff_getElem?.1 hc
  rw [h.said i c hi]
  exact share_sublist i stream

variable {d : Desk} {before after : List Command} {told : List Line} {stream : List (Nat × Line)}

theorem Heard.enter (h : Heard ⟨d, before⟩ told stream) {c : Command} (hc : c.said = []) :
    Heard ⟨d, before ++ [c]⟩ told stream where
  told := h.told
  owned e he := by
    have hlt := h.owned e he
    simp only [List.length_append, List.length_singleton] at hlt ⊢
    omega
  said i x hx := by
    rcases Nat.lt_or_ge i before.length with hi | hi
    · rw [List.getElem?_append_left hi] at hx
      exact h.said i x hx
    · rw [List.getElem?_append_right hi] at hx
      obtain rfl := List.mem_singleton.1 (List.mem_of_getElem? hx)
      have hless : ∀ e ∈ stream, e.1 < before.length := h.owned
      rw [hc, share_eq_nil fun e he => Nat.ne_of_lt (Nat.lt_of_lt_of_le (hless e he) hi)]

theorem Heard.record {c : Command} {r : Answer × Option Stage} {ls : List Line}
    (h : Heard ⟨d, before ++ c :: after⟩ told stream) (hs : r.1.said = c.said ++ ls)
    (ht : r.1.session.told = d.session.told ++ ls) :
    Heard (record before after r) told (stream ++ ls.map fun l => (before.length, l)) where
  told := by
    have hsnd : (ls.map fun l => (before.length, l)).map Prod.snd = ls := by
      rw [List.map_map]
      exact List.map_id ls
    rw [List.map_append, hsnd, ← List.append_assoc, ← h.told]
    exact ht
  owned e he := by
    have hlength : (Ledger.record before after r).commands.length =
        before.length + (after.length + 1) := List.length_append
    rw [hlength]
    rcases List.mem_append.1 he with he | he
    · have hlt := h.owned e he
      rwa [List.length_append, List.length_cons] at hlt
    · obtain ⟨l, -, rfl⟩ := List.mem_map.1 he
      show before.length < _
      omega
  said i x hx := by
    have hset : before ++ .ofResult r :: after =
        (before ++ c :: after).set before.length (.ofResult r) := by simp
    have hlt : before.length < (before ++ c :: after).length := by simp
    rw [Ledger.record, hset] at hx
    rw [share_append]
    by_cases hi : before.length = i
    · subst hi
      rw [List.getElem?_set_self hlt] at hx
      obtain rfl := Option.some.inj hx
      rw [share_self, ← h.said before.length c (by simp)]
      exact hs
    · rw [List.getElem?_set_ne hi] at hx
      have hnone : share i (ls.map fun l => (before.length, l)) = [] := by
        refine share_eq_nil ?_
        intro e he
        obtain ⟨l, -, rfl⟩ := List.mem_map.1 he
        exact hi
      rw [h.said i x hx, hnone, List.append_nil]

theorem Heard.speaks {p : Pending} {r : Answer × Option Stage}
    (h : Heard ⟨d, before ++ .waiting p :: after⟩ told stream) (hr : (p.answer d).Speaks r.1) :
    ∃ more, Heard (Ledger.record before after r) told (stream ++ more) := by
  obtain ⟨ls, hls⟩ := hr
  exact ⟨_, h.record hls.said hls.told⟩

theorem Step.heard {l m : Ledger} (h : Step hosts l m) (hl : l.Heard told stream) :
    ∃ more, m.Heard told (stream ++ more) := by
  cases h with
  | host l hh => exact ⟨[], by rw [List.append_nil]; exact ⟨hl.told, hl.owned, hl.said⟩⟩
  | refused l => exact ⟨[], by rw [List.append_nil]; exact ⟨hl.told, hl.owned, hl.said⟩⟩
  | line l now raw =>
    let fresh : Command := ⟨now, [], none⟩
    have hsaid : (begin l.desk now raw).1.said = fresh.said ++ (begin l.desk now raw).1.said := rfl
    exact ⟨_, (hl.enter (c := fresh) rfl).record hsaid (told_begin ..).heard⟩
  | progress text => exact hl.speaks (Speaks.say _ .system text)
  | signal signal => exact hl.speaks (speaks_continued _ _ signal)

theorem Reaches.heard {l m : Ledger} (h : Reaches hosts l m) (hl : l.Heard told stream) :
    ∃ more, m.Heard told (stream ++ more) := by
  induction h with
  | refl => exact ⟨[], by rw [List.append_nil]; exact hl⟩
  | tail _ hs ih =>
    obtain ⟨more, hm⟩ := ih
    obtain ⟨further, hf⟩ := hs.heard hm
    exact ⟨more ++ further, by rw [← List.append_assoc]; exact hf⟩

theorem heard_nil (d : Desk) : Heard ⟨d, []⟩ d.session.told [] :=
  ⟨(List.append_nil _).symm, List.forall_mem_nil _, by simp⟩

end Ledger

/-! ## What is added -/

namespace Floor

/-- A step has added those lines: they are what is heard, and they stand at the end of the history
unless the step is a line, which may have replaced the history. -/
structure Adds (f g : Floor) (ls : List Line) : Prop where
  told : g.desk.session.told = f.desk.session.told ++ ls
  lines : g.desk.session.lines = f.desk.session.lines ++ ls ∨
    ∃ now raw, g = settle f.pending [] (begin f.desk now raw) ∧
      ls = (begin f.desk now raw).1.said ∧ HistoryAfter f.desk raw ls g.desk.session.lines

theorem adds_of_speaks {d : Desk} {before after : List Pending} {p : Pending}
    {r : Answer × Option Stage} (h : (p.answer d).Speaks r.1) :
    ∃ ls, Adds ⟨d, before ++ p :: after⟩ (settle before after r) ls := by
  obtain ⟨ls, hls⟩ := h
  refine ⟨ls, ?_, Or.inl ?_⟩
  all_goals rw [desk_settle]
  · exact hls.told
  · exact hls.lines

theorem adds_line (f : Floor) (now : Int) (raw : Text) :
    Adds f (settle f.pending [] (begin f.desk now raw)) (begin f.desk now raw).1.said := by
  have htold := told_begin f.desk now raw
  refine ⟨?_, Or.inr ⟨now, raw, rfl, rfl, ?_⟩⟩
  all_goals rw [desk_settle]
  · exact htold.heard
  · exact htold.history

theorem Step.adds {hosts : Host → Prop} {f g : Floor} (h : Step hosts f g) : ∃ ls, Adds f g ls := by
  cases h with
  | host f hh => exact ⟨[], (List.append_nil _).symm, Or.inl (List.append_nil _).symm⟩
  | refused f => exact ⟨[], (List.append_nil _).symm, Or.inl (List.append_nil _).symm⟩
  | line f now raw => exact ⟨_, adds_line f now raw⟩
  | progress text => exact adds_of_speaks (Speaks.say _ .system text)
  | signal signal => exact adds_of_speaks (speaks_continued _ _ signal)

end Floor

/-- What is added is what is heard, once and in order. A line that is seen through while no other is
entered has said its echo first, and the history is the one before with what it has said, empty if the
history was cleared, and that of the snapshot with all but the echo if one was loaded. For
commands side by side there is always a ledger, where each line that was heard belongs to one command,
and what a command has said is its share of them. -/
theorem history_conserved (hosts : Host → Prop) (d : Desk) :
    (∀ {σ : Type} (engine : Engine σ), engine.Quiet → ∀ state now raw,
      Told d now raw (executeAt engine state d now raw).answer) ∧
    (∀ f g, Floor.Step hosts f g → ∃ ls, Floor.Adds f g ls) ∧
    (∀ f, Floor.Reaches hosts ⟨d, []⟩ f → ∃ l, Ledger.Reaches hosts ⟨d, []⟩ l ∧ l.floor = f) ∧
    (∀ l, Ledger.Reaches hosts ⟨d, []⟩ l → Floor.Reaches hosts ⟨d, []⟩ l.floor ∧
      ∃ stream, l.Heard d.session.told stream ∧
        ∀ c ∈ l.commands, c.said.Sublist (stream.map Prod.snd)) := by
  refine ⟨fun engine hq state now raw => told_executeAt hq state d now raw, ?_, ?_, ?_⟩
  · intro f g h
    exact h.adds
  · intro f h
    exact Ledger.exists_reaches (l := ⟨d, []⟩) h
  · intro l h
    obtain ⟨stream, hl⟩ := h.heard (Ledger.heard_nil d)
    exact ⟨h.floor, stream, hl, hl.sublist⟩

theorem history_conserved_scan :
    let d := Desk.bare (Session.withoutHistory ⟨[]⟩ "1.0.0")
    let engine : Engine Unit :=
      ⟨fun state _ _ => ⟨state, [.progress "SCANNING"], .error .missingCredential⟩⟩
    let f := Floor.settle [] [] (begin d 0 "scan")
    let g := Floor.settle f.pending [] (begin f.desk 1 "clear")
    engine.Quiet ∧ Told d 0 "scan" (executeAt engine () d 0 "scan").answer ∧
      Floor.Reaches (fun _ => False) ⟨d, []⟩ g ∧ g.desk.session.lines = [] ∧
      (∃ ls, Floor.Adds f g ls) ∧ ∃ (l : Ledger) (stream : List (Nat × Line)), l.floor = g ∧
        l.Heard [] stream ∧ (stream.map Prod.snd).map Line.text = [("scan" : Text), "clear"] := by
  intro d engine f g
  have hq : engine.Quiet := fun _ _ _ => List.forall_mem_singleton.2 ⟨_, rfl⟩
  obtain ⟨hexecute, hadds, hledger, hheard⟩ := history_conserved (fun _ => False) d
  have hstep : Floor.Step (fun _ => False) f g := .line f 1 "clear"
  have hg : Floor.Reaches (fun _ => False) ⟨d, []⟩ g := .head (.line ⟨d, []⟩ 0 "scan") (.single hstep)
  obtain ⟨l, hl, hfloor⟩ := hledger g hg
  obtain ⟨-, stream, hstream, -⟩ := hheard l hl
  refine ⟨hq, hexecute engine hq () 0 "scan", hg, rfl, hadds f g hstep, l, stream, hfloor, hstream, ?_⟩
  have htold : stream.map Prod.snd = g.desk.session.told := by
    rw [← hfloor]
    exact hstream.told.symm
  rw [htold]
  rfl

end Shell

end ThreatDesk
