import ThreatDesk.Proofs.Engine.Contacts
import ThreatDesk.Proofs.Shell.Asking
import ThreatDesk.Proofs.Shell.Completing
import ThreatDesk.Proofs.Shell.Loading

/-!
# Keys take effect at once

Over every course of keys that are set, an environment that changes and errands of the engine: the key in
force is that of the environment, or else the last one that was set with success (`Course`), every errand is
refused without it and served with it, and a client is made when it is another key than that of the errand
before. A setting that fails leaves the key as it was, unless it fails because the word cannot be written
down. Main statement: `key_in_force`.
-/

namespace ThreatDesk

namespace Shell

open Engine (Errand Online ServiceConfig online)

/-! ## Setting a key -/

def keyUpdated : LineKind × Text := (.success, "KEY UPDATED.")

theorem setKey_desk (a : Answer) (word : Text) (args : List Text) :
    (setKey a (word :: args)).desk.site = a.desk.site ∧
      (setKey a (word :: args)).desk.host = (a.desk.site.keys.set a.desk.host word).1 := by
  unfold setKey
  simp only
  split
  · next hset => rw [hset]; exact ⟨rfl, rfl⟩
  · next hset =>
    rw [hset]
    split
    · exact ⟨rfl, rfl⟩
    · exact ⟨rfl, rfl⟩

theorem setKey_told {a : Answer} (ha : keyUpdated ∉ a.said.map shown) (word : Text) (args : List Text) :
    keyUpdated ∈ (setKey a (word :: args)).said.map shown ↔
      (a.desk.site.keys.set a.desk.host word).2.isNone = true := by
  have hsay (b : Answer) (kind : LineKind) (text : Text) (hb : b.said = a.said) :
      keyUpdated ∈ (b.say kind text).said.map shown ↔ keyUpdated = (kind, text) := by
    rw [Answer.say, List.map_append, List.mem_append, hb, List.map_singleton, List.mem_singleton]
    exact or_iff_right ha
  unfold setKey
  simp only
  split
  · next hset =>
    rw [hset]
    exact iff_of_true ((hsay (a.withHost _) .success _ rfl).2 rfl) rfl
  · next hset =>
    rw [hset]
    refine iff_of_false ?_ Bool.false_ne_true
    split
    · intro h
      cases (hsay (a.withHost _) .error _ rfl).1 h
    · intro h
      cases (hsay (a.withHost _) .error _ rfl).1 h

/-- The key of the file after a line that has set a word: the word if a success has been told, and otherwise
the key from before, if the word could have been written down. -/
def settled (a : Answer) (word : Text) (stored : Option Text) : Option Text :=
  if keyUpdated ∈ a.said.map shown then some word else if word.IsScalar then stored else none

/-! ## Courses -/

section Courses

variable {τ : Type} (c : Client τ) (keys : KeyStore) (config : ServiceConfig)

def seen (d : Desk) (s : Online (List Contact × τ)) (now : Int) (raw : Text) :
    Outcome (Online (List Contact × τ)) :=
  executeAt (online c.logged keys config) s d now raw

def sent (h : Host) (s : Online (List Contact × τ)) (e : Errand) :
    Attended (Online (List Contact × τ)) e.Answer :=
  s.run h (e.work (c.logged.link keys) config)

/-- A desk and an engine after keys have been set, the environment has changed and errands have been done,
with the key of the file and the key of the last errand that found one. -/
inductive Course : Desk → Online (List Contact × τ) → (stored last : Option Text) → Prop
  | start {d : Desk} {stored : Option Text} (t : τ) (hsite : d.site.keys = keys)
    (hstored : keys.Holds d.host stored) : Course d ⟨none, ([], t)⟩ stored none
  | setKey {d : Desk} {s : Online (List Contact × τ)} {stored last : Option Text} (h : Course d s stored last)
    (now : Int) {raw verb word : Text} {args : List Text} (hraw : raw.words = verb :: word :: args)
    (hverb : verb.lower = Verb.setkey.name) :
    Course (seen c keys config d s now raw).answer.desk (seen c keys config d s now raw).engine
      (settled (seen c keys config d s now raw).answer word stored) last
  | environment {d : Desk} {s : Online (List Contact × τ)} {stored last : Option Text}
    (h : Course d s stored last) {host : Host} (he : host.entries = d.host.entries)
    (hw : host.workingDirectory = d.host.workingDirectory) : Course { d with host := host } s stored last
  | errand {d : Desk} {s : Online (List Contact × τ)} {stored last : Option Text} (h : Course d s stored last)
    (e : Errand) :
    Course d (sent c keys config d.host s e).state stored
      (((keys.fromEnvironment d.host).or stored).or last)

variable {c keys config} {d : Desk} {s : Online (List Contact × τ)} {stored last : Option Text}

theorem seen_setKey (c : Client τ) (config : ServiceConfig) (hsite : d.site.keys = keys) (now : Int)
    {raw verb word : Text} {args : List Text} (hraw : raw.words = verb :: word :: args)
    (hverb : verb.lower = Verb.setkey.name) (stored : Option Text) :
    (seen c keys config d s now raw).engine = s ∧
      (seen c keys config d s now raw).answer.desk.site.keys = keys ∧
      (seen c keys config d s now raw).answer.desk.host = (keys.set d.host word).1 ∧
      settled (seen c keys config d s now raw).answer word stored = keys.replaced d.host word stored := by
  have hbegun : begin d now raw = (setKey (echo d now raw) (word :: args), none) :=
    begin_of_verb hraw hverb d now
  obtain ⟨hkept, hhost⟩ := setKey_desk (echo d now raw) word args
  have hnew : keyUpdated ∉ (echo d now raw).said.map shown := by
    intro h
    cases List.mem_singleton.1 h
  have htold := setKey_told hnew word args
  unfold seen executeAt
  rw [hbegun]
  refine ⟨rfl, (congrArg Site.keys hkept).trans hsite, ?_, ?_⟩
  · refine hhost.trans ?_
    exact hsite ▸ rfl
  · have hset : (echo d now raw).desk.site.keys.set (echo d now raw).desk.host word =
        keys.set d.host word := by
      rw [← hsite]
      rfl
    rw [hset] at htold
    unfold settled KeyStore.replaced
    simp only [htold]

section Connecting

variable (config) (hc : c.Connects)

include hc

theorem sent_refused {h : Host} (hkey : keys.key h = .ok none) (s : Online (List Contact × τ)) (e : Errand) :
    (sent c keys config h s e).reply = e.refusal ∧ (sent c keys config h s e).state = s := by
  obtain ⟨hr, hidle⟩ := Errand.refused hc keys config (s := ⟨s.key, (h, s.client), []⟩) e hkey
  generalize hw : Engine.Work.outcome _ _ = r at hr hidle
  rw [sent, Online.run_eq hw]
  refine ⟨hr, ?_⟩
  rw [hidle.client, hidle.outside]

theorem sent_served {h : Host} {key : Text} (hkey : keys.key h = .ok (some key))
    (s : Online (List Contact × τ)) (e : Errand) :
    let a := sent c keys config h s e
    a.reply ≠ .error .missingCredential ∧ a.state.key = some key ∧
      ∃ calls : List ApiCall, a.state.client.1 = s.client.1 ++
        (if s.key = some key then [] else [.connected key config.timeout]) ++ calls.map (.called key) := by
  obtain ⟨hr, hdone⟩ := Errand.served hc keys config (s := ⟨s.key, (h, s.client), []⟩) e hkey
  generalize hw : Engine.Work.outcome _ _ = r at hr hdone
  simp only [sent, Online.run_eq hw]
  exact ⟨hr, hdone.client, hdone.contacts⟩

end Connecting

def built? : Contact → Option Text
  | .connected key _ => some key
  | .called _ _ => none

/-- What a course keeps: the file and the engine are as is told of them, and the engine has the client that
was made last. -/
structure Kept (keys : KeyStore) (d : Desk) (s : Online (List Contact × τ)) (stored last : Option Text) :
    Prop where
  site : d.site.keys = keys
  stored : keys.Holds d.host stored
  client : s.key = last
  built : (s.client.1.filterMap built?).getLast? = last

theorem getLast?_built {before : List Contact} {last : Option Text}
    (h : (before.filterMap built?).getLast? = last) (key : Text) (timeout : Int) (calls : List ApiCall) :
    ((before ++ (if last = some key then [] else [Contact.connected key timeout]) ++
      calls.map (Contact.called key)).filterMap built?).getLast? = some key := by
  have hcalls : (calls.map (Contact.called key)).filterMap built? = [] := by
    rw [List.filterMap_eq_nil_iff, List.forall_mem_map]
    exact fun _ _ => rfl
  rw [List.filterMap_append, List.filterMap_append, hcalls, List.append_nil]
  split
  · next hlast => rw [List.filterMap_nil, List.append_nil, h, hlast]
  · exact List.getLast?_concat

theorem Course.kept (hc : c.Connects) (hp : keys.path.Direct) (h : Course c keys config d s stored last) :
    Kept keys d s stored last := by
  -- A key that is set and another environment leave the engine alone, and an errand the host.
  induction h with
  | start t hsite hstored => exact ⟨hsite, hstored, rfl, rfl⟩
  | @setKey d s stored last h now raw verb word args hraw hverb ih =>
    obtain ⟨hengine, hsite, hhost, hsettled⟩ := seen_setKey c config ih.site now hraw hverb stored
    have hword : word.IsWord := Text.forall_mem_words raw word (by rw [hraw]; simp)
    rw [hengine, hsettled]
    exact ⟨hsite, hhost ▸ ih.stored.set hp hword, ih.client, ih.built⟩
  | environment h he hw ih => exact ⟨ih.site, ih.stored.congr he hw, ih.client, ih.built⟩
  | @errand d s stored last h e ih =>
    have hkey := KeyStore.key_eq ih.stored.file
    cases hfound : (keys.fromEnvironment d.host).or stored with
    | none =>
      rw [hfound] at hkey
      obtain ⟨-, hstate⟩ := sent_refused config hc hkey s e
      rw [hstate]
      exact ⟨ih.site, ih.stored, ih.client, ih.built⟩
    | some key =>
      rw [hfound] at hkey
      obtain ⟨-, hclient, calls, hcalls⟩ := sent_served config hc hkey s e
      refine ⟨ih.site, ih.stored, hclient, ?_⟩
      rw [hcalls, ih.client]
      exact getLast?_built ih.built key config.timeout calls

/-! ## The key in force -/

theorem status_told {d : Desk} {source : KeySource} (hs : d.site.keys.source d.host = .ok source)
    (now : Int) (raw : Text) :
    ((status (echo d now raw)).said.map shown)[4]? = some (.output, "KEY: " ++ source.toText) := by
  have hsource : (echo d now raw).desk.site.keys.source (echo d now raw).desk.host = .ok source := hs
  unfold status
  simp only
  split
  · next fault hfault => cases hfault.symm.trans hsource
  · next found hfound =>
    obtain rfl : found = source := Except.ok.inj (hfound.symm.trans hsource)
    split
    · rfl
    · rfl

/-- Every errand is done with the key that is in force, or refused without one; a client is made for it
unless the errand before had the same, and the client that has been made last is one for that key. The status
tells where the key comes from. -/
theorem key_in_force (hc : c.Connects) (hp : keys.path.Direct) (h : Course c keys config d s stored last) :
    let environment := keys.fromEnvironment d.host
    (∀ e : Errand,
      let a := sent c keys config d.host s e
      (environment.or stored = none → a.reply = e.refusal ∧ a.state = s) ∧
      ∀ key, environment.or stored = some key → a.reply ≠ .error .missingCredential ∧
        (a.state.client.1.filterMap built?).getLast? = some key ∧
        ∃ calls : List ApiCall, a.state.client.1 = s.client.1 ++
          (if last = some key then [] else [.connected key config.timeout]) ++ calls.map (.called key)) ∧
    ∀ now raw verb args, raw.words = verb :: args → verb.lower = Verb.status.name →
      ((seen c keys config d s now raw).answer.said.map shown)[4]? = some (.output, "KEY: " ++
        (if environment.isSome then "ENV" else if stored.isSome then "LOCAL" else "MISSING" : Text)) := by
  have hkept := h.kept hc hp
  have hkey := KeyStore.key_eq hkept.stored.file
  refine ⟨fun e => ⟨fun hnone => ?_, fun key hsome => ?_⟩, fun now raw verb args hraw hverb => ?_⟩
  · rw [hnone] at hkey
    exact sent_refused config hc hkey s e
  · rw [hsome] at hkey
    obtain ⟨hreply, -, calls, hcalls⟩ := sent_served config hc hkey s e
    rw [hkept.client] at hcalls
    exact ⟨hreply, hcalls ▸ getLast?_built hkept.built key config.timeout calls, calls, hcalls⟩
  · obtain rfl := hkept.site
    have hbegun : begin d now raw = (status (echo d now raw), none) := begin_of_verb hraw hverb d now
    unfold seen executeAt
    rw [hbegun]
    refine (status_told (KeyStore.source_of_fromFile hkept.stored.file) now raw).trans ?_
    split
    · rfl
    · split
      · rfl
      · rfl

end Courses

theorem key_in_force_changed :
    let d := Desk.bare (Session.withoutHistory ⟨[]⟩ "1.0")
    let keys := d.site.keys
    let config : ServiceConfig := ⟨.null, 1, 1⟩
    let good : Text := "good"
    let other : Text := "other"
    let o := seen silentClient keys config d ⟨none, ([], ())⟩ 0 "setkey good"
    let host := o.answer.desk.host.setEnv keys.variableName (some other)
    silentClient.Connects ∧ keys.path.Direct ∧
      Course silentClient keys config { o.answer.desk with host := host } o.engine (some good) none ∧
      ∃ calls : List ApiCall, (sent silentClient keys config host o.engine .health).state.client.1 =
        [.connected other 1] ++ calls.map (.called other) := by
  intro d keys config good other o host
  have hc : silentClient.Connects := fun _ _ _ => rfl
  have hp : keys.path.Direct :=
    ⟨by decide, Host.placeOf_notMem_ways (by decide) (by decide), by decide, by decide, by decide⟩
  have hraw : Text.words "setkey good" = [Verb.setkey.name, good] := by decide
  have hstart : Course silentClient keys config d ⟨none, ([], ())⟩ none none := .start () rfl ⟨rfl, rfl⟩
  have hengine : o.engine = ⟨none, ([], ())⟩ :=
    (seen_setKey silentClient config rfl 0 hraw Verb.setkey.lower_name none).1
  have hsettled : settled o.answer good none = some good := by decide +kernel
  have hset : Course silentClient keys config o.answer.desk o.engine (some good) none := by
    rw [← hsettled]
    exact hstart.setKey 0 hraw Verb.setkey.lower_name
  clear_value o
  have hcourse : Course silentClient keys config { o.answer.desk with host := host } o.engine
      (some good) none := hset.environment rfl rfl
  have hother : (keys.fromEnvironment host).or (some good) = some other := by
    rw [KeyStore.fromEnvironment_setEnv]
    rfl
  obtain ⟨-, -, calls, hcalls⟩ := ((key_in_force hc hp hcourse).1 .health).2 other hother
  refine ⟨hc, hp, hcourse, calls, hcalls.trans ?_⟩
  rw [hengine]
  rfl

/-- A key has been set with success, setting another fails because it cannot be written down, and then there
is no key any more. -/
theorem key_lost :
    let d := Desk.bare (Session.withoutHistory ⟨[]⟩ "1.0")
    let keys := d.site.keys
    let config : ServiceConfig := ⟨.null, 1, 1⟩
    let good : Text := "good"
    let unwritable : Text := Verb.setkey.line [⟨0xDCFF, by decide⟩]
    let missing : LineKind × Text := (.output, "KEY: MISSING")
    let first := seen silentClient keys config d ⟨none, ([], ())⟩ 0 "setkey good"
    let second := seen silentClient keys config first.answer.desk first.engine 0 unwritable
    let third := seen silentClient keys config second.answer.desk second.engine 0 "status"
    keyUpdated ∈ first.answer.said.map shown ∧ (keys.key first.answer.desk.host).toOption = some (some good) ∧
      keyUpdated ∉ second.answer.said.map shown ∧
      (keys.key second.answer.desk.host).toOption = some none ∧
      (third.answer.said.map shown)[4]? = some missing := by
  decide +kernel

end Shell

end ThreatDesk
